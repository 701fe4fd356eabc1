import ProxyLane.Foundation.Json
import ProxyLane.Foundation.Run

/-!
# The list of requests

`History` keeps the newest rows within a number of rows and of bytes.  Streams,
DNS and HTTP/3 requests are updated in place, and a connection's own row gives
way to the first row of a session on it.
-/

namespace ProxyLane.App.ProtocolHistory

open ProxyLane.Foundation

structure Row where
  run : String
  key : String
  status : String := ""
  record : Json
  sequence : Nat
  bytes : Nat
  stream : Bool := false
  dns : Bool := false
  connectionRow : Bool := false
  hex : Bool := false
  number : Nat := 0
  firstSeenSeconds : Int := 0
  datagram : Nat × Nat := (0, 0)
  deriving Repr

structure History where
  rowLimit : Nat := 512
  metadataLimit : Nat := 8 * 1024 * 1024
  rows : List Row := []
  bytes : Nat := 0
  discarded : Nat := 0
  nextNumber : Nat := 1

def str (j : Json) (key : String) : String := (j.get key).asStr.getD ""

def object (j : Json) (key : String) : Json :=
  if (j.get key).isObject then j.get key else .obj []

def Row.connection (row : Row) : String × String :=
  (row.run, str (object row.record "connection") "id")

def Row.keyed (row : Row) : Bool :=
  row.stream || row.dns ||
    (str row.record "type" == "exchange" && str row.record "protocol" == "h3")

def Row.updates (row existing : Row) : Bool :=
  (row.keyed && existing.key == row.key) ||
    (existing.connectionRow && existing.connection == row.connection)

/-- The first loop of `Add`. -/
def Row.superseded (row existing : Row) : Bool :=
  existing.connection == row.connection && row.connectionRow &&
    (!existing.connectionRow || existing.status == "Failed")

def Row.over (row existing : Row) : Row :=
  { row with
    hex := existing.hex
    number := existing.number
    firstSeenSeconds := existing.firstSeenSeconds
    datagram := existing.datagram }

def Row.appended (row : Row) (number : Nat) (now : Int) : Row :=
  { row with
    number := number
    firstSeenSeconds := if row.firstSeenSeconds = 0 then now else row.firstSeenSeconds }

def trim (full : Nat → Nat → Bool) : List Row → Nat → List Row × Nat × Nat
  | [], bytes => ([], bytes, 0)
  | row :: rest, bytes =>
    if full (rest.length + 1) bytes then
      let (rows, left, gone) := trim full rest (bytes - row.bytes)
      (rows, left, gone + 1)
    else (row :: rest, bytes, 0)

/-- The second loop of `Add`: the first row that `row` is an update of. -/
def update (row : Row) : List Row → Option (Row × List Row)
  | [] => none
  | existing :: rest =>
    if row.updates existing then some (existing, row.over existing :: rest)
    else (update row rest).map fun (e, rows) => (e, existing :: rows)

def History.add (h : History) (row : Row) (now : Int) : History :=
  if h.metadataLimit < row.bytes then { h with discarded := h.discarded + 1 }
  else if h.rows.any row.superseded then h
  else match update row h.rows with
    | some (existing, rows) =>
      if row.sequence ≤ existing.sequence then h
      else
        let (rows, bytes, gone) := trim (fun _ b => h.metadataLimit < b) rows
          (h.bytes - existing.bytes + row.bytes)
        { h with rows := rows, bytes := bytes, discarded := h.discarded + gone }
    | none =>
      let (rows, bytes, gone) := trim
        (fun n b => h.rowLimit ≤ n || h.metadataLimit < b + row.bytes) h.rows h.bytes
      { h with
        rows := rows ++ [row.appended h.nextNumber now]
        bytes := bytes + row.bytes
        discarded := h.discarded + gone
        nextNumber := h.nextNumber + 1 }

def History.clear (h : History) : History :=
  { h with rows := [], bytes := 0, discarded := 0, nextNumber := 1 }

def History.setLimit (h : History) (count : Nat) : History :=
  let limit := count * 16 * 1024 % 2 ^ 64
  let (rows, bytes, gone) := trim (fun n b => count < n || limit < b) h.rows h.bytes
  { h with
    rowLimit := count
    metadataLimit := limit
    rows := rows
    bytes := bytes
    discarded := h.discarded + gone }

inductive Op where
  | add (row : Row) (now : Int)
  | setLimit (count : Nat)
  | clear

def step (h : History) : Op → History
  | .add row now => h.add row now
  | .setLimit count => h.setLimit count
  | .clear => h.clear

def total (rows : List Row) : Nat := (rows.map Row.bytes).sum

theorem trim_spec (full : Nat → Nat → Bool) (rows : List Row) :
    ∃ k, trim full rows (total rows) = (rows.drop k, total (rows.drop k), k) ∧
      (rows.drop k = [] ∨
        full (rows.drop k).length (total (rows.drop k)) = false) := by
  induction rows with
  | nil => exact ⟨0, rfl, Or.inl rfl⟩
  | cons row rest ih =>
    by_cases hfull : full (rest.length + 1) (total (row :: rest)) = true
    · obtain ⟨k, htrim, hroom⟩ := ih
      have hrest : total (row :: rest) - row.bytes = total rest := by
        simp [total]
      exact ⟨k + 1, by simp [trim, hfull, hrest, htrim], hroom⟩
    · refine ⟨0, by simp [trim, hfull], Or.inr ?_⟩
      simpa using hfull

theorem update_spec (row : Row) (rows : List Row) :
    (update row rows = none ∧ ∀ e ∈ rows, row.updates e = false) ∨
      ∃ pre e post, rows = pre ++ e :: post ∧ row.updates e = true ∧
        update row rows = some (e, pre ++ row.over e :: post) := by
  induction rows with
  | nil => exact Or.inl ⟨rfl, by simp⟩
  | cons existing rest ih =>
    by_cases hupdates : row.updates existing = true
    · exact Or.inr ⟨[], existing, rest, rfl, hupdates, by simp [update, hupdates]⟩
    · rcases ih with ⟨hnone, hall⟩ | ⟨pre, e, post, rfl, he, hsome⟩
      · refine Or.inl ⟨by simp [update, hupdates, hnone], ?_⟩
        simpa [hupdates] using hall
      · exact Or.inr ⟨existing :: pre, e, post, rfl, he,
          by simp [update, hupdates, hsome]⟩

/-- What becomes of a row that is handed to `add`. -/
inductive Accounted (h : History) (row : Row) : History → Prop
  | discarded (hlarge : h.metadataLimit < row.bytes) :
      Accounted h row { h with discarded := h.discarded + 1 }
  | superseded (e : Row) (he : e ∈ h.rows) (hgone : row.superseded e = true) :
      Accounted h row h
  | refused (e : Row) (he : e ∈ h.rows) (hupdates : row.updates e = true)
      (hold : row.sequence ≤ e.sequence) : Accounted h row h
  | merged (pre : List Row) (e : Row) (post : List Row) (k : Nat)
      (hrows : h.rows = pre ++ e :: post) (hupdates : row.updates e = true)
      (hfree : ∀ x ∈ h.rows, row.superseded x = false)
      (hnew : e.sequence < row.sequence)
      (hroom : total ((pre ++ row.over e :: post).drop k) ≤ h.metadataLimit) :
      Accounted h row
        { h with
          rows := (pre ++ row.over e :: post).drop k
          bytes := total ((pre ++ row.over e :: post).drop k)
          discarded := h.discarded + k }
  | stored (now : Int) (k : Nat)
      (hnone : ∀ e ∈ h.rows, row.updates e = false)
      (hfree : ∀ x ∈ h.rows, row.superseded x = false)
      (hfits : row.bytes ≤ h.metadataLimit)
      (hroom : h.rows.drop k = [] ∨ (h.rows.drop k).length < h.rowLimit ∧
        total (h.rows.drop k) + row.bytes ≤ h.metadataLimit) :
      Accounted h row
        { h with
          rows := h.rows.drop k ++ [row.appended h.nextNumber now]
          bytes := total (h.rows.drop k) + row.bytes
          discarded := h.discarded + k
          nextNumber := h.nextNumber + 1 }

theorem add_accounted {h : History} (hbytes : h.bytes = total h.rows) (row : Row)
    (now : Int) : Accounted h row (h.add row now) := by
  rw [History.add]
  split_ifs with hlarge hgone
  · exact .discarded hlarge
  · obtain ⟨e, he, hgone⟩ := List.any_eq_true.1 hgone
    exact .superseded e he hgone
  · have hfree : ∀ x ∈ h.rows, row.superseded x = false := by
      simpa using hgone
    rcases update_spec row h.rows with ⟨hnone, hall⟩ |
      ⟨pre, e, post, hrows, hupdates, hsome⟩
    · obtain ⟨k, htrim, hroom⟩ := trim_spec
        (fun n b => h.rowLimit ≤ n || h.metadataLimit < b + row.bytes) h.rows
      simp only [hnone, hbytes, htrim]
      refine .stored _ k hall hfree (by omega) ?_
      simpa using hroom
    · have hsum : h.bytes - e.bytes + row.bytes =
          total (pre ++ row.over e :: post) := by
        simp only [hbytes, hrows, total, List.map_append, List.map_cons,
          List.sum_append, List.sum_cons, Row.over]
        omega
      simp only [hsome]
      split_ifs with hold
      · exact .refused e (by simp [hrows]) hupdates hold
      · obtain ⟨k, htrim, hroom⟩ := trim_spec (fun _ b => h.metadataLimit < b)
          (pre ++ row.over e :: post)
        simp only [hsum, htrim]
        refine .merged pre e post k hrows hupdates hfree (by omega) ?_
        rcases hroom with hnil | hroom
        · simp [hnil, total]
        · simpa using hroom

structure Bounded (h : History) : Prop where
  bytes : h.bytes = total h.rows
  fits : h.bytes ≤ h.metadataLimit
  few : h.rows.length ≤ h.rowLimit
  some : 1 ≤ h.rowLimit
  ascending : (h.rows.map Row.number).Pairwise (· < ·)
  below : ∀ r ∈ h.rows, r.number < h.nextNumber

/-- What stays of the rows of an earlier state: its numbers are not given to
other rows, and a row under one of them only goes on. -/
def Later (h h' : History) : Prop :=
  h.nextNumber ≤ h'.nextNumber ∧ ∀ r' ∈ h'.rows, r'.number < h.nextNumber →
    ∃ r ∈ h.rows, r.number = r'.number ∧
      r.firstSeenSeconds = r'.firstSeenSeconds ∧ r.sequence ≤ r'.sequence

theorem later_refl (h : History) : Later h h :=
  ⟨Nat.le_refl _, fun r hr _ => ⟨r, hr, rfl, rfl, Nat.le_refl _⟩⟩

theorem later_trans {h₁ h₂ h₃ : History} (h₁₂ : Later h₁ h₂) (h₂₃ : Later h₂ h₃) :
    Later h₁ h₃ := by
  refine ⟨h₁₂.1.trans h₂₃.1, ?_⟩
  intro r hr hnumber
  obtain ⟨r₂, hr₂, hn₂, hs₂, hq₂⟩ := h₂₃.2 r hr (hnumber.trans_le h₁₂.1)
  obtain ⟨r₁, hr₁, hn₁, hs₁, hq₁⟩ := h₁₂.2 r₂ hr₂ (by omega)
  exact ⟨r₁, hr₁, hn₁.trans hn₂, hs₁.trans hs₂, hq₁.trans hq₂⟩

theorem bounded_drop {h : History} (hb : Bounded h) (k rowLimit limit gone : Nat)
    (hsome : 1 ≤ rowLimit) (hfew : (h.rows.drop k).length ≤ rowLimit)
    (hfits : total (h.rows.drop k) ≤ limit) :
    Bounded { h with
      rowLimit := rowLimit
      metadataLimit := limit
      rows := h.rows.drop k
      bytes := total (h.rows.drop k)
      discarded := gone } :=
  { bytes := rfl
    fits := hfits
    few := hfew
    some := hsome
    ascending := hb.ascending.sublist ((List.drop_sublist k h.rows).map _)
    below := fun r hr => hb.below r (List.mem_of_mem_drop hr) }

theorem accounted_bounded {h h' : History} {row : Row} (hb : Bounded h)
    (ha : Accounted h row h') : Bounded h' ∧ Later h h' := by
  cases ha with
  | discarded _ => exact ⟨{ hb with }, later_refl h⟩
  | superseded _ _ _ => exact ⟨hb, later_refl h⟩
  | refused _ _ _ _ => exact ⟨hb, later_refl h⟩
  | merged pre e post k hrows hupdates hfree hnew hroom =>
    have hnumbers : (pre ++ row.over e :: post).map Row.number =
        h.rows.map Row.number := by
      simp [hrows, Row.over]
    have hfew := hb.few
    have hlength := congrArg List.length hrows
    simp only [List.length_append, List.length_cons] at hlength
    constructor
    · exact
        { bytes := rfl
          fits := hroom
          few := by
            simp only [List.length_drop, List.length_append, List.length_cons]
            omega
          some := hb.some
          ascending := by
            rw [List.map_drop, hnumbers]
            exact hb.ascending.sublist (List.drop_sublist k _)
          below := by
            intro r hr
            have hmem := List.mem_map_of_mem (f := Row.number)
              (List.mem_of_mem_drop hr)
            rw [hnumbers] at hmem
            obtain ⟨x, hx, hsame⟩ := List.mem_map.1 hmem
            exact hsame ▸ hb.below x hx }
    · refine ⟨Nat.le_refl _, ?_⟩
      intro r hr _
      have hmem := List.mem_of_mem_drop hr
      simp only [List.mem_append, List.mem_cons] at hmem
      rcases hmem with hmem | rfl | hmem
      · exact ⟨r, by simp [hrows, hmem], rfl, rfl, Nat.le_refl _⟩
      · exact ⟨e, by simp [hrows], rfl, rfl, Nat.le_of_lt hnew⟩
      · exact ⟨r, by simp [hrows, hmem], rfl, rfl, Nat.le_refl _⟩
  | stored now k hnone hfree hfits hroom =>
    have hsome := hb.some
    constructor
    · refine ⟨?_, ?_, ?_, hsome, ?_, ?_⟩
      · simp [total, Row.appended]
      · rcases hroom with hnil | hroom
        · simpa [hnil, total] using hfits
        · exact hroom.2
      · rcases hroom with hnil | hroom
        · simpa [hnil] using hsome
        · simp only [List.length_append, List.length_singleton]
          omega
      · rw [List.map_append, List.pairwise_append]
        refine ⟨hb.ascending.sublist ((List.drop_sublist k h.rows).map _),
          by simp, ?_⟩
        intro n hn m hm
        obtain ⟨r, hr, rfl⟩ := List.mem_map.1 hn
        simp only [List.map_cons, List.map_nil, List.mem_singleton] at hm
        rw [hm]
        exact hb.below r (List.mem_of_mem_drop hr)
      · intro r hr
        rcases List.mem_append.1 hr with hr | hr
        · exact Nat.lt_succ_of_lt (hb.below r (List.mem_of_mem_drop hr))
        · rw [List.mem_singleton.1 hr]
          exact Nat.lt_succ_self _
    · refine ⟨Nat.le_succ _, ?_⟩
      intro r hr hnumber
      rcases List.mem_append.1 hr with hr | hr
      · exact ⟨r, List.mem_of_mem_drop hr, rfl, rfl, Nat.le_refl _⟩
      · rw [List.mem_singleton.1 hr] at hnumber
        exact absurd hnumber (Nat.lt_irrefl _)

theorem setLimit_rows {h : History} (hb : Bounded h) (count : Nat) :
    ∃ k, h.setLimit count =
        { h with
          rowLimit := count
          metadataLimit := count * 16 * 1024 % 2 ^ 64
          rows := h.rows.drop k
          bytes := total (h.rows.drop k)
          discarded := h.discarded + k } ∧
      (h.rows.drop k).length ≤ count ∧
      total (h.rows.drop k) ≤ count * 16 * 1024 % 2 ^ 64 := by
  obtain ⟨k, htrim, hroom⟩ := trim_spec
    (fun n b => count < n || count * 16 * 1024 % 2 ^ 64 < b) h.rows
  refine ⟨k, by simp only [History.setLimit, hb.bytes, htrim], ?_⟩
  rcases hroom with hnil | hroom
  · simp [hnil, total]
  · simpa using hroom

def Op.Limited : Op → Prop
  | .setLimit count => 1 ≤ count
  | _ => True

theorem step_bounded {h : History} (hb : Bounded h) {op : Op} (hop : op.Limited) :
    Bounded (step h op) ∧ (op ≠ .clear → Later h (step h op)) := by
  cases op with
  | add row now =>
    have := accounted_bounded hb (add_accounted hb.bytes row now)
    exact ⟨this.1, fun _ => this.2⟩
  | setLimit count =>
    obtain ⟨k, heq, hfew, hfits⟩ := setLimit_rows hb count
    rw [step, heq]
    refine ⟨bounded_drop hb k _ _ _ hop hfew hfits, fun _ => ?_⟩
    exact ⟨Nat.le_refl _, fun r hr _ =>
      ⟨r, List.mem_of_mem_drop hr, rfl, rfl, Nat.le_refl _⟩⟩
  | clear =>
    refine ⟨⟨rfl, Nat.zero_le _, Nat.zero_le _, hb.some, List.Pairwise.nil, ?_⟩,
      fun h => absurd rfl h⟩
    intro r hr
    cases hr

theorem run_bounded {h : History} (hb : Bounded h) {ops : List Op}
    (hops : ∀ op ∈ ops, op.Limited) :
    Bounded (run step h ops) ∧ (Op.clear ∉ ops → Later h (run step h ops)) := by
  induction ops generalizing h with
  | nil => exact ⟨hb, fun _ => later_refl h⟩
  | cons op ops ih =>
    have hone := step_bounded hb (hops op List.mem_cons_self)
    have hrest := ih hone.1 fun o ho => hops o (List.mem_cons_of_mem _ ho)
    refine ⟨hrest.1, fun hclear => ?_⟩
    rw [List.mem_cons, not_or] at hclear
    exact later_trans (hone.2 fun h => hclear.1 h.symm) (hrest.2 hclear.2)

def Apart (a b : Row) : Prop :=
  (a.keyed = true → b.keyed = true → a.key ≠ b.key) ∧
    (a.connection = b.connection → a.connectionRow = false ∧ b.connectionRow = false)

def Identified (rows : List Row) : Prop :=
  ∀ a ∈ rows, ∀ b ∈ rows, a.keyed = true → a.key = b.key →
    b.keyed = true ∧ b.connection = a.connection

def Row.ident (row : Row) : String × Bool × (String × String) × Bool :=
  (row.key, row.keyed, row.connection, row.connectionRow)

structure Unique (handed : List Row) (h : History) : Prop where
  apart : h.rows.Pairwise Apart
  known : ∀ r ∈ h.rows, ∃ a ∈ handed, a.ident = r.ident

theorem apart_symm {a b : Row} (h : Apart a b) : Apart b a :=
  ⟨fun hb ha heq => h.1 ha hb heq.symm, fun heq => (h.2 heq.symm).symm⟩

theorem apart_congr {a a' b b' : Row} (ha : a.ident = a'.ident)
    (hb : b.ident = b'.ident) (h : Apart a b) : Apart a' b' := by
  simp only [Row.ident, Prod.mk.injEq] at ha hb
  obtain ⟨hk, hd, hc, hr⟩ := ha
  obtain ⟨hk', hd', hc', hr'⟩ := hb
  simpa only [Apart, ← hk, ← hd, ← hc, ← hr, ← hk', ← hd', ← hc', ← hr'] using h

theorem identified_ident {handed : List Row} (hid : Identified handed) {a b : Row}
    (ha : ∃ x ∈ handed, x.ident = a.ident) (hb : ∃ x ∈ handed, x.ident = b.ident)
    (hkeyed : a.keyed = true) (hkey : a.key = b.key) :
    b.keyed = true ∧ b.connection = a.connection := by
  obtain ⟨x, hx, hxa⟩ := ha
  obtain ⟨y, hy, hyb⟩ := hb
  simp only [Row.ident, Prod.mk.injEq] at hxa hyb
  obtain ⟨hk, hd, hc, -⟩ := hxa
  obtain ⟨hk', hd', hc', -⟩ := hyb
  have := hid x hx y hy (hd ▸ hkeyed) (by rw [hk, hk', hkey])
  exact ⟨hd' ▸ this.1, by rw [← hc', ← hc, this.2]⟩

theorem apart_of_updates {row e x : Row} (hupdates : row.updates e = true)
    (hfree : row.superseded e = false)
    (hx : row.keyed = true → row.key = x.key → x.connection = row.connection)
    (he : row.keyed = true → row.key = e.key →
      e.keyed = true ∧ e.connection = row.connection)
    (hapart : Apart e x) : Apart row x := by
  simp only [Row.updates, Bool.or_eq_true, Bool.and_eq_true, beq_iff_eq] at hupdates
  simp only [Row.superseded] at hfree
  have hconnection : e.connection = row.connection := by
    rcases hupdates with ⟨hkeyed, hkey⟩ | ⟨-, hsame⟩
    · exact (he hkeyed hkey.symm).2
    · exact hsame
  have hplain : row.connection = x.connection →
      e.connectionRow = false ∧ x.connectionRow = false :=
    fun h => hapart.2 (hconnection.trans h)
  constructor
  · intro hrow hxkeyed hkey
    have hsame := hplain (hx hrow hkey).symm
    rcases hupdates with ⟨-, hekey⟩ | ⟨hrow', -⟩
    · exact hapart.1 (he hrow hekey.symm).1 hxkeyed (hekey.trans hkey)
    · simp [hsame.1] at hrow'
  · intro hsame
    refine ⟨?_, (hplain hsame).2⟩
    simpa [hconnection, (hplain hsame).1] using hfree

theorem apart_of_stored {row x : Row} (hnone : row.updates x = false)
    (hfree : row.superseded x = false) : Apart x row := by
  simp only [Row.updates, Row.superseded, Bool.or_eq_false_iff,
    Bool.and_eq_false_iff, beq_eq_false_iff_ne] at hnone hfree
  refine ⟨fun _ hrow hkey => ?_, fun hsame => ?_⟩
  · rcases hnone.1 with h | h
    · simp [hrow] at h
    · exact h hkey
  · have hx : x.connectionRow = false := hnone.2.resolve_right fun h => h hsame
    simp [hx, hsame] at hfree
    exact ⟨hx, hfree⟩

theorem accounted_unique {handed : List Row} {h h' : History} {row : Row}
    (hid : Identified handed) (hrow : row ∈ handed) (hu : Unique handed h)
    (ha : Accounted h row h') : Unique handed h' := by
  cases ha with
  | discarded _ => exact ⟨hu.apart, hu.known⟩
  | superseded _ _ _ => exact hu
  | refused _ _ _ _ => exact hu
  | merged pre e post k hrows hupdates hfree hnew hroom =>
    have hself : row.ident = (row.over e).ident := rfl
    have hapart := hu.apart
    rw [hrows, List.pairwise_middle apart_symm, List.pairwise_cons]
      at hapart
    have hknown : ∀ x ∈ pre ++ row.over e :: post,
        ∃ a ∈ handed, a.ident = x.ident := by
      intro x hx
      simp only [List.mem_append, List.mem_cons] at hx
      rcases hx with hx | rfl | hx
      · exact hu.known x (by simp [hrows, hx])
      · exact ⟨row, hrow, hself⟩
      · exact hu.known x (by simp [hrows, hx])
    have hplaced : (pre ++ row.over e :: post).Pairwise Apart := by
      rw [List.pairwise_middle apart_symm, List.pairwise_cons]
      refine ⟨fun x hx => ?_, hapart.2⟩
      have hmem : x ∈ h.rows := by
        rw [hrows]
        simp only [List.mem_append, List.mem_cons] at hx ⊢
        tauto
      apply apart_congr hself rfl
      apply apart_of_updates hupdates (hfree e (by simp [hrows]))
        (fun hkeyed hkey => (identified_ident hid ⟨row, hrow, rfl⟩
          (hu.known x hmem) hkeyed hkey).2)
        (fun hkeyed hkey => identified_ident hid ⟨row, hrow, rfl⟩
          (hu.known e (by simp [hrows])) hkeyed hkey)
        (hapart.1 x hx)
    exact ⟨hplaced.sublist (List.drop_sublist k _),
      fun r hr => hknown r (List.mem_of_mem_drop hr)⟩
  | stored now k hnone hfree hfits hroom =>
    have hself : row.ident = (row.appended h.nextNumber now).ident := rfl
    refine ⟨?_, ?_⟩
    · rw [List.pairwise_append]
      refine ⟨hu.apart.sublist (List.drop_sublist k _), by simp, ?_⟩
      intro x hx y hy
      have hmem := List.mem_of_mem_drop hx
      rw [List.mem_singleton.1 hy]
      exact apart_congr rfl hself (apart_of_stored (hnone x hmem) (hfree x hmem))
    · intro r hr
      rcases List.mem_append.1 hr with hr | hr
      · exact hu.known r (List.mem_of_mem_drop hr)
      · rw [List.mem_singleton.1 hr]
        exact ⟨row, hrow, hself⟩

def Op.handed : Op → List Row
  | .add row _ => [row]
  | _ => []

private theorem run_unique {handed : List Row} (hid : Identified handed) {h : History}
    (hb : Bounded h) (hu : Unique handed h) {ops : List Op}
    (hops : ∀ op ∈ ops, op.Limited) (hrows : ∀ op ∈ ops, ∀ r ∈ op.handed, r ∈ handed) :
    Unique handed (run step h ops) := by
  induction ops generalizing h with
  | nil => exact hu
  | cons op ops ih =>
    have hone := step_bounded hb (hops op List.mem_cons_self)
    refine ih hone.1 ?_ (fun o ho => hops o (List.mem_cons_of_mem _ ho))
      fun o ho => hrows o (List.mem_cons_of_mem _ ho)
    cases op with
    | add row now =>
      exact accounted_unique hid (hrows _ List.mem_cons_self row (by simp [Op.handed]))
        hu (add_accounted hb.bytes row now)
    | setLimit count =>
      obtain ⟨k, heq, -, -⟩ := setLimit_rows hb count
      rw [step, heq]
      exact ⟨hu.apart.sublist (List.drop_sublist k _),
        fun r hr => hu.known r (List.mem_of_mem_drop hr)⟩
    | clear => exact ⟨List.Pairwise.nil, fun r hr => by cases hr⟩

theorem bounded_empty : Bounded {} :=
  ⟨rfl, Nat.zero_le _, Nat.zero_le _, by decide, List.Pairwise.nil,
    fun r hr => by cases hr⟩

theorem history_invariant (ops : List Op) (hops : ∀ op ∈ ops, op.Limited) :
    Bounded (run step {} ops) ∧
      (Identified (ops.flatMap Op.handed) → (run step {} ops).rows.Pairwise Apart) ∧
      (∀ before after, ops = before ++ after → Op.clear ∉ after →
        Later (run step {} before) (run step {} ops)) ∧
      ∀ before row now after, ops = before ++ .add row now :: after →
        Accounted (run step {} before) row (run step {} (before ++ [.add row now])) := by
  refine ⟨(run_bounded bounded_empty hops).1, ?_, ?_, ?_⟩
  · intro hid
    refine (run_unique hid bounded_empty ⟨List.Pairwise.nil, fun r hr => by cases hr⟩
      hops ?_).apart
    exact fun op hop r hr => List.mem_flatMap.2 ⟨op, hop, hr⟩
  · rintro before after rfl hclear
    rw [run_append]
    refine (run_bounded (run_bounded bounded_empty ?_).1 ?_).2 hclear
    · exact fun op hop => hops op (List.mem_append_left _ hop)
    · exact fun op hop => hops op (List.mem_append_right _ hop)
  · rintro before row now after rfl
    rw [run_append]
    have hb := (run_bounded bounded_empty fun op hop =>
      hops op (List.mem_append_left _ hop)).1
    exact add_accounted hb.bytes row now

def sampleRow (id key : String) (sequence : Nat) (connectionRow : Bool) : Row :=
  { run := "r", key := key, sequence := sequence, bytes := 600, stream := true
    connectionRow := connectionRow
    record := .obj [("connection", .obj [("id", .str id)])] }

def supersededRun : List Op :=
  [.add (sampleRow "c" "r:stream:c" 1 false) 7,
   .add (sampleRow "c" "r:connection:c" 2 true) 7]

def sharedKeyRun : List Op :=
  [.add (sampleRow "d" "k" 1 false) 7, .add (sampleRow "c" "r:connection:c" 2 true) 7,
   .add (sampleRow "c" "k" 3 false) 7]

/-- A newer row of a connection goes without a trace once a session stands
there; two connections under one key keep a connection's row next to its
session. -/
theorem connection_rows :
    ((run step {} supersededRun).rows.map Row.sequence = [1] ∧
      (run step {} supersededRun).discarded = 0) ∧
    (run step {} sharedKeyRun).rows.map (fun r => (r.connection, r.connectionRow)) =
      [(("r", "c"), false), (("r", "c"), true)] := by
  decide

/-- An update, a row of another connection that takes the room, and a connection
row that comes behind its session. -/
def sampleRun : List Op :=
  [.setLimit 1, .add (sampleRow "c" "k" 1 false) 7, .add (sampleRow "c" "k" 2 false) 8,
   .add (sampleRow "d" "l" 3 false) 9, .add (sampleRow "d" "r:connection:d" 4 true) 9]

theorem history_sample :
    let h := run step {} sampleRun
    Bounded h ∧ h.rows.Pairwise Apart ∧ h.rows.map Row.sequence = [3] ∧
      h.discarded = 1 := by
  have h := history_invariant sampleRun (by simp [sampleRun, Op.Limited])
  have hid : Identified (sampleRun.flatMap Op.handed) := by
    unfold Identified
    decide
  exact ⟨h.1, h.2.1 hid, by decide, by decide⟩

end ProxyLane.App.ProtocolHistory
