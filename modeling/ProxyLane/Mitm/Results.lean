import ProxyLane.Foundation.JsonText
import ProxyLane.Foundation.Run

/-!
# The published results

The worker numbers its results and keeps the last of them, within limits on
their number and on the bytes of their texts.  A client polls with the cursor
that the last poll has returned: what it is given, and what it is told to have
missed, is every number up to its cursor.
-/

namespace ProxyLane.Mitm

open ProxyLane.Foundation

def maxRecords : Nat := 256

def recordBytes : Nat := 16 * 1024 * 1024

def pollBytes : Nat := 2 * 1024 * 1024

structure ResultRecord where
  seq : Nat
  value : Json
  size : Nat
  deriving Repr

structure PublishedResults where
  sequence : Nat
  bytes : Nat
  evicted : Nat
  records : List ResultRecord
  deriving Repr

namespace PublishedResults

def initial : PublishedResults := ⟨0, 0, 0, []⟩

def tooLarge (sequence : Nat) (connection : Json) : Json :=
  .object [("type", .str "analysis_diagnostic"), ("sequence", .num sequence),
    ("connection", connection),
    ("detail", .str "result exceeds retention limit")]

def stamp (sequence observed : Nat) (fields : List (String × Json)) : Json :=
  let value := ((Json.obj fields).set "sequence" (.num sequence)).set
    "observed_unix_ms" (.num observed)
  if pollBytes < value.compact.length then
    tooLarge sequence (value.get "connection")
  else value

/-- The loop of `add` over the oldest records. -/
def trim : List ResultRecord → Nat → Nat → List ResultRecord × Nat × Nat
  | [], bytes, evicted => ([], bytes, evicted)
  | r :: rest, bytes, evicted =>
    if recordBytes < bytes || maxRecords < (r :: rest).length then
      trim rest (bytes - r.size) (evicted + 1)
    else (r :: rest, bytes, evicted)

def newRecord (sequence observed : Nat) (fields : List (String × Json)) :
    ResultRecord :=
  let value := stamp sequence observed fields
  ⟨sequence, value, value.compact.length⟩

def add (p : PublishedResults) (observed : Nat)
    (fields : List (String × Json)) : PublishedResults :=
  let r := newRecord (p.sequence + 1) observed fields
  let (records, bytes, evicted) :=
    trim (p.records ++ [r]) (p.bytes + r.size) p.evicted
  ⟨p.sequence + 1, bytes, evicted, records⟩

structure Poll where
  records : List Json
  next : Nat
  lostBefore : Nat
  lastSequence : Nat
  deriving Repr

def collect (after limit : Nat) :
    List ResultRecord → Nat → Nat → List Json → Nat × List Json
  | [], _, next, output => (next, output)
  | r :: rest, bytes, next, output =>
    if r.seq ≤ after then collect after limit rest bytes next output
    else if output.length = limit ∨ pollBytes < bytes + r.size then
      (next, output)
    else
      collect after limit rest (bytes + r.size) r.seq (output ++ [r.value])

def oldest (p : PublishedResults) : Nat :=
  (p.records.head?.map ResultRecord.seq).getD (p.sequence + 1)

def poll (p : PublishedResults) (after : Nat) (limit : Option Nat) : Poll :=
  let limit := max 1 (min 64 (limit.getD 16))
  let (next, records) := collect after limit p.records 0 after []
  ⟨records, next, p.oldest - (after + 1), p.sequence⟩

end PublishedResults

section Sizes

open PublishedResults

/-- A connection as the callers describe it: a host, a path and a few
numbers. -/
def Modest (connection : Json) : Prop := connection.compact.length ≤ 1024 * 1024

private theorem tooLarge_text (n : Nat) (c : Json) : (tooLarge n c).text =
    "\x7b\"connection\":".toList ++ c.text ++
      ",\"detail\":\"result exceeds retention limit\",\"sequence\":".toList ++
      Nat.toDigits 10 n ++ ",\"type\":\"analysis_diagnostic\"\x7d".toList := by
  simp +decide only [tooLarge, Json.object, List.foldl, Json.insertField,
    if_pos, if_neg]
  simp +decide [Json.text, Json.textFields, Json.quoted, Json.escape, Json.signed]

theorem tooLarge_size_le {n : Nat} {c : Json} (hn : n < 2 ^ 64)
    (hc : Modest c) : (tooLarge n c).compact.length ≤ pollBytes := by
  have hdigits : (Nat.toDigits 10 n).length ≤ 20 := by
    apply (Nat.length_toDigits_le_iff (by decide) (by decide)).mpr
    omega
  have hnumber := Json.length_utf8_le (Nat.toDigits 10 n)
  have hbefore := Json.length_utf8_le "\x7b\"connection\":".toList
  have hdetail := Json.length_utf8_le
    ",\"detail\":\"result exceeds retention limit\",\"sequence\":".toList
  have hafter := Json.length_utf8_le ",\"type\":\"analysis_diagnostic\"\x7d".toList
  have hconnection : (c.text.flatMap String.utf8EncodeChar).length ≤ 1024 * 1024 := hc
  have hlengths : "\x7b\"connection\":".toList.length = 14 ∧
      ",\"detail\":\"result exceeds retention limit\",\"sequence\":".toList.length
        = 54 ∧
      ",\"type\":\"analysis_diagnostic\"\x7d".toList.length = 30 := by
    decide
  simp only [Json.compact, tooLarge_text, List.flatMap_append,
    List.length_append, pollBytes]
  omega

theorem stamp_size_le {n observed : Nat} {fields : List (String × Json)}
    (hn : n < 2 ^ 64) (hc : Modest ((Json.obj fields).get "connection")) :
    (stamp n observed fields).compact.length ≤ pollBytes := by
  unfold stamp
  dsimp only
  split
  case isTrue =>
    apply tooLarge_size_le hn
    simpa using hc
  case isFalse h => omega

def number (v : Json) : Nat :=
  match v.get "sequence" with
  | .num n => n.toNat
  | _ => 0

theorem number_stamp (n observed : Nat) (fields : List (String × Json)) :
    number (stamp n observed fields) = n := by
  unfold stamp
  dsimp only
  split
  case isTrue =>
    have hget : ∀ c, (tooLarge n c).get "sequence" = .num n := by
      intro c
      simp +decide [tooLarge, Json.object, Json.get, Json.get?_obj_insertField]
    simp [number, hget]
  case isFalse =>
    have hget : (((Json.obj fields).set "sequence" (.num n)).set
        "observed_unix_ms" (.num observed)).get "sequence" = .num n := by
      have hopen : (Json.obj fields).Open := trivial
      simp [Json.get_set_self hopen]
    simp [number, hget]

end Sizes

namespace PublishedResults

structure Invariant (p : PublishedResults) : Prop where
  numbered : p.records.map ResultRecord.seq =
    List.range' (p.evicted + 1) p.records.length
  added : p.evicted + p.records.length = p.sequence
  bytes : p.bytes = (p.records.map ResultRecord.size).sum
  values : ∀ r ∈ p.records, number r.value = r.seq ∧ r.size = r.value.compact.length
  bytes_le : p.bytes ≤ recordBytes
  records_le : p.records.length ≤ maxRecords

theorem initial_invariant : Invariant initial := by
  constructor <;> simp [initial, recordBytes, maxRecords]

theorem trim_spec (records : List ResultRecord) (evicted : Nat) :
    ∃ k, trim records (records.map ResultRecord.size).sum evicted =
        (records.drop k, ((records.drop k).map ResultRecord.size).sum, evicted + k) ∧
      k ≤ records.length ∧
      ((records.drop k).map ResultRecord.size).sum ≤ recordBytes ∧
      (records.drop k).length ≤ maxRecords := by
  induction records generalizing evicted with
  | nil => exact ⟨0, by simp [trim, recordBytes, maxRecords]⟩
  | cons r rest ih =>
    unfold trim
    split
    case isTrue =>
      obtain ⟨k, htrim, hk, hbytes, hrecords⟩ := ih (evicted + 1)
      have hrest : ((r :: rest).map ResultRecord.size).sum - r.size =
          (rest.map ResultRecord.size).sum := by
        simp
      refine ⟨k + 1, ?_, ?_, ?_, ?_⟩
      · rw [hrest, htrim]
        simp
        omega
      · simpa using hk
      · simpa using hbytes
      · simpa using hrecords
    case isFalse h =>
      simp only [Bool.or_eq_true, decide_eq_true_eq, not_or, not_lt] at h
      exact ⟨0, by simp, by simp, by simpa using h.1, by simpa using h.2⟩

theorem add_spec {p : PublishedResults} (h : Invariant p) (observed : Nat)
    (fields : List (String × Json)) :
    ∃ k, k ≤ p.records.length + 1 ∧
      (p.add observed fields).sequence = p.sequence + 1 ∧
      (p.add observed fields).records =
        (p.records ++ [newRecord (p.sequence + 1) observed fields]).drop k ∧
      (p.add observed fields).evicted = p.evicted + k ∧
      (p.add observed fields).bytes =
        ((p.add observed fields).records.map ResultRecord.size).sum ∧
      (p.add observed fields).bytes ≤ recordBytes ∧
      (p.add observed fields).records.length ≤ maxRecords := by
  obtain ⟨k, htrim, hk, hbytes, hrecords⟩ := trim_spec
    (p.records ++ [newRecord (p.sequence + 1) observed fields]) p.evicted
  have hsum : ((p.records ++ [newRecord (p.sequence + 1) observed fields]).map
      ResultRecord.size).sum =
      p.bytes + (newRecord (p.sequence + 1) observed fields).size := by
    simp [h.bytes]
  rw [hsum] at htrim
  refine ⟨k, by simpa using hk, ?_⟩
  simp only [add, htrim, true_and]
  exact ⟨hbytes, hrecords⟩

theorem add_invariant {p : PublishedResults} (h : Invariant p) (observed : Nat)
    (fields : List (String × Json)) : Invariant (p.add observed fields) := by
  obtain ⟨k, hk, hsequence, hkept, hevicted, hbytes, hle, hlength⟩ :=
    add_spec h observed fields
  have hadded := h.added
  have hseqs : (p.records ++ [newRecord (p.sequence + 1) observed fields]).map
      ResultRecord.seq = List.range' (p.evicted + 1) (p.records.length + 1) := by
    rw [List.range'_concat, List.map_append, h.numbered]
    simp [newRecord]
    omega
  constructor
  · rw [hkept, hevicted, List.map_drop, hseqs, List.drop_range']
    simp only [List.length_drop, List.length_append, List.length_singleton]
    congr 1
    omega
  · rw [hkept, hevicted, hsequence]
    simp
    omega
  · exact hbytes
  · intro r hr
    rw [hkept] at hr
    have hmem := List.mem_of_mem_drop hr
    simp only [List.mem_append, List.mem_singleton] at hmem
    rcases hmem with hold | rfl
    · exact h.values r hold
    · exact ⟨number_stamp _ _ _, rfl⟩
  · exact hle
  · exact hlength

theorem collect_spec (after limit : Nat) (records : List ResultRecord)
    (bytes next : Nat) (output : List Json) :
    ∃ k, collect after limit records bytes next output =
        ((((records.filter (after < ·.seq)).take k).getLast?.map
            ResultRecord.seq).getD next,
          output ++ ((records.filter (after < ·.seq)).take k).map
            ResultRecord.value) := by
  induction records generalizing bytes next output with
  | nil => exact ⟨0, by simp [collect]⟩
  | cons r rest ih =>
    unfold collect
    split
    case isTrue hold =>
      have hskip : (r :: rest).filter (after < ·.seq) =
          rest.filter (after < ·.seq) := by
        simp [hold]
      rw [hskip]
      exact ih bytes next output
    case isFalse hnew =>
      have hkeep : (r :: rest).filter (after < ·.seq) =
          r :: rest.filter (after < ·.seq) := by
        simp [Nat.lt_of_not_le hnew]
      rw [hkeep]
      split
      case isTrue => exact ⟨0, by simp⟩
      case isFalse =>
        obtain ⟨k, hk⟩ := ih (bytes + r.size) r.seq (output ++ [r.value])
        refine ⟨k + 1, ?_⟩
        rw [hk, List.take_succ_cons, List.getLast?_cons]
        simp

theorem filter_range' (after start n : Nat) :
    (List.range' start n).filter (after < ·) =
      List.range' (max start (after + 1)) (start + n - max start (after + 1)) := by
  induction n generalizing start with
  | zero =>
    have hzero : start + 0 - max start (after + 1) = 0 := by omega
    rw [hzero]
    rfl
  | succ n ih =>
    rw [List.range'_succ, List.filter_cons, ih (start + 1)]
    by_cases h : after < start
    · have hmax : max start (after + 1) = start := by omega
      have hmax' : max (start + 1) (after + 1) = start + 1 := by omega
      have hlength : start + (n + 1) - start = n + 1 := by omega
      have hlength' : start + 1 + n - (start + 1) = n := by omega
      simp only [h, decide_true, if_true, hmax, hmax', hlength, hlength',
        List.range'_succ]
    · have hmax : max start (after + 1) = max (start + 1) (after + 1) := by
        omega
      have hlength : start + (n + 1) = start + 1 + n := by omega
      simp only [h, decide_false, Bool.false_eq_true, if_false, hmax, hlength]

theorem getLast?_range' (start n : Nat) :
    (List.range' start n).getLast? =
      if n = 0 then none else some (start + n - 1) := by
  cases n with
  | zero => rfl
  | succ n => simp [List.range'_concat]

section Polling

variable {p : PublishedResults} {after : Nat} {limit : Option Nat}

theorem Invariant.behind (h : Invariant p) (after : Nat) :
    (p.records.filter (after < ·.seq)).map ResultRecord.seq =
      List.range' (max p.evicted after + 1) (p.sequence - max p.evicted after) := by
  have hmap : (p.records.filter (after < ·.seq)).map ResultRecord.seq =
      (p.records.map ResultRecord.seq).filter (after < ·) := by
    rw [List.filter_map]
    rfl
  have hadded := h.added
  rw [hmap, h.numbered, filter_range']
  congr 1
  · omega
  · omega

theorem Invariant.oldest (h : Invariant p) : p.oldest = p.evicted + 1 := by
  have hadded := h.added
  have hnumbered := h.numbered
  unfold PublishedResults.oldest
  cases hrecords : p.records with
  | nil =>
    rw [hrecords] at hadded
    simp at hadded ⊢
    omega
  | cons r rest =>
    rw [hrecords] at hnumbered
    simp [List.range'_succ] at hnumbered
    simp [hnumbered.1]

theorem poll_spec (h : Invariant p) (after : Nat) (limit : Option Nat) :
    ∃ k, k ≤ p.sequence - max p.evicted after ∧
      (p.poll after limit).records.map number =
        List.range' (max p.evicted after + 1) k ∧
      (p.poll after limit).next = (if k = 0 then after else max p.evicted after + k) ∧
      (p.poll after limit).lostBefore = p.evicted - after := by
  obtain ⟨k, hcollect⟩ := collect_spec after (max 1 (min 64 (limit.getD 16)))
    p.records 0 after []
  have hbehind := h.behind after
  have htaken : ((p.records.filter (after < ·.seq)).take k).map
      ResultRecord.seq = List.range' (max p.evicted after + 1)
        (min k (p.sequence - max p.evicted after)) := by
    rw [List.map_take, hbehind]
    rcases Nat.le_total k (p.sequence - max p.evicted after) with hle | hle
    · rw [List.take_range'_of_length_ge hle, Nat.min_eq_left hle]
    · rw [List.take_range'_of_length_le hle, Nat.min_eq_right hle]
  refine ⟨min k (p.sequence - max p.evicted after), by omega, ?_, ?_, ?_⟩
  · have hnumbers : ∀ r ∈ (p.records.filter (after < ·.seq)).take k,
        number r.value = r.seq := by
      intro r hr
      have hmem := List.mem_of_mem_filter (List.mem_of_mem_take hr)
      exact (h.values r hmem).1
    simp only [poll, hcollect, List.nil_append, List.map_map]
    rw [← htaken]
    exact List.map_congr_left hnumbers
  · simp only [poll, hcollect]
    rw [← List.getLast?_map, htaken, getLast?_range']
    split
    · rfl
    · simp
  · simp only [poll, h.oldest]
    omega

theorem poll_progress (hsizes : ∀ r ∈ p.records, r.size ≤ pollBytes)
    (hnew : ∃ r ∈ p.records, after < r.seq) : (p.poll after limit).records ≠ [] := by
  have hcollect : ∀ records : List ResultRecord,
      (∀ r ∈ records, r.size ≤ pollBytes) → (∃ r ∈ records, after < r.seq) →
      ∀ limit next, 0 < limit → (collect after limit records 0 next []).2 ≠ [] := by
    intro records hsizes hnew limit next hlimit
    induction records with
    | nil => simp at hnew
    | cons r rest ih =>
      unfold collect
      split
      case isTrue hold =>
        apply ih
        · intro r hr
          exact hsizes r (by simp [hr])
        · simpa [Nat.not_lt.mpr hold] using hnew
      case isFalse =>
        have hsize := hsizes r (by simp)
        have hstart : ¬ (([] : List Json).length = limit ∨
            pollBytes < 0 + r.size) := by
          simp
          omega
        rw [if_neg hstart]
        obtain ⟨k, hk⟩ := collect_spec after limit rest (0 + r.size) r.seq
          ([] ++ [r.value])
        rw [hk]
        simp
  have hpoll := hcollect p.records hsizes hnew
    (max 1 (min 64 (limit.getD 16))) after (by omega)
  exact hpoll

end Polling

end PublishedResults

/-- A client that passes back the cursor of its last poll; it remembers what
it was given and the numbers it was told to have missed. -/
structure PollClient where
  cursor : Nat
  delivered : List Json
  lost : List Nat
  deriving Repr

structure ResultSystem where
  published : PublishedResults
  client : PollClient
  deriving Repr

inductive ResultEvent where
  | add (observed : Nat) (fields : List (String × Json))
  | poll (limit : Option Nat)
  deriving Repr

namespace ResultSystem

open PublishedResults

def initial : ResultSystem := ⟨.initial, ⟨0, [], []⟩⟩

def step (s : ResultSystem) : ResultEvent → ResultSystem
  | .add observed fields =>
    { s with published := s.published.add observed fields }
  | .poll limit =>
    let answer := s.published.poll s.client.cursor limit
    { s with client :=
      { cursor := answer.next
        delivered := s.client.delivered ++ answer.records
        lost := s.client.lost ++
          List.range' (s.client.cursor + 1) answer.lostBefore } }

def numbers (s : ResultSystem) : List Nat := s.client.delivered.map number

structure Accounts (s : ResultSystem) : Prop where
  kept : Invariant s.published
  cursor_le : s.client.cursor ≤ s.published.sequence
  ascending : s.numbers.Pairwise (· < ·)
  delivered_le : ∀ n ∈ s.numbers, n ≤ s.client.cursor
  lost_le : ∀ n ∈ s.client.lost, n ≤ s.published.evicted
  apart : ∀ n ∈ s.client.lost, n ∉ s.numbers
  all : ∀ n, 0 < n → n ≤ s.client.cursor → n ∈ s.numbers ∨ n ∈ s.client.lost

theorem initial_accounts : Accounts initial := by
  constructor
  · exact initial_invariant
  all_goals simp [initial, numbers]
  omega

theorem add_accounts {s : ResultSystem} (h : Accounts s) (observed : Nat)
    (fields : List (String × Json)) :
    Accounts (s.step (.add observed fields)) := by
  obtain ⟨k, -, hsequence, -, hevicted, -⟩ := add_spec h.kept observed fields
  have hcursor := h.cursor_le
  constructor
  · exact add_invariant h.kept observed fields
  · change s.client.cursor ≤ (s.published.add observed fields).sequence
    omega
  · exact h.ascending
  · exact h.delivered_le
  · intro n hn
    have hle := h.lost_le n hn
    change n ≤ (s.published.add observed fields).evicted
    omega
  · exact h.apart
  · exact h.all

theorem poll_accounts {s : ResultSystem} (h : Accounts s)
    (limit : Option Nat) : Accounts (s.step (.poll limit)) := by
  obtain ⟨k, hk, hrecords, hnext, hlost⟩ :=
    poll_spec h.kept s.client.cursor limit
  have hcursor := h.cursor_le
  have hadded := h.kept.added
  have hnumbers : (s.step (.poll limit)).numbers = s.numbers ++
      List.range' (max s.published.evicted s.client.cursor + 1) k := by
    simp [step, numbers, hrecords]
  have hreported : (s.step (.poll limit)).client.lost = s.client.lost ++
      List.range' (s.client.cursor + 1) (s.published.evicted - s.client.cursor) := by
    simp [step, hlost]
  have hmoved : (s.step (.poll limit)).client.cursor =
      if k = 0 then s.client.cursor
      else max s.published.evicted s.client.cursor + k := by
    simp [step, hnext]
  constructor
  · exact h.kept
  · rw [hmoved]
    change _ ≤ s.published.sequence
    split <;> omega
  · rw [hnumbers, List.pairwise_append]
    refine ⟨h.ascending, List.pairwise_lt_range', ?_⟩
    intro n hn j hj
    have hle := h.delivered_le n hn
    simp only [List.mem_range'_1] at hj
    omega
  · intro n hn
    rw [hnumbers, List.mem_append, List.mem_range'_1] at hn
    rw [hmoved]
    rcases hn with hold | hnew
    · have hle := h.delivered_le n hold
      split <;> omega
    · split <;> omega
  · intro n hn
    change n ≤ s.published.evicted
    rw [hreported, List.mem_append, List.mem_range'_1] at hn
    rcases hn with hold | hnew
    · exact h.lost_le n hold
    · omega
  · intro n hn
    rw [hreported, List.mem_append, List.mem_range'_1] at hn
    rw [hnumbers, List.mem_append, List.mem_range'_1, not_or]
    rcases hn with hold | hnew
    · have hle := h.lost_le n hold
      exact ⟨h.apart n hold, by omega⟩
    · refine ⟨fun hgiven => ?_, by omega⟩
      have hle := h.delivered_le n hgiven
      omega
  · intro n hpos hn
    rw [hmoved] at hn
    simp only [hnumbers, hreported, List.mem_append, List.mem_range'_1]
    by_cases hold : n ≤ s.client.cursor
    · rcases h.all n hpos hold with hgiven | hmissed
      · exact .inl (.inl hgiven)
      · exact .inr (.inl hmissed)
    · by_cases hevicted : n ≤ s.published.evicted
      · exact .inr (.inr (by omega))
      · refine .inl (.inr ?_)
        split at hn <;> omega

theorem step_accounts (s : ResultSystem) (e : ResultEvent) (h : Accounts s) :
    Accounts (s.step e) := by
  cases e with
  | add observed fields => exact add_accounts h observed fields
  | poll limit => exact poll_accounts h limit

def isAdd : ResultEvent → Bool
  | .add .. => true
  | .poll _ => false

theorem run_sequence (s : ResultSystem) (events : List ResultEvent) :
    (run step s events).published.sequence =
      s.published.sequence + events.countP isAdd := by
  induction events generalizing s with
  | nil => rfl
  | cons e events ih =>
    rw [run_cons, ih, List.countP_cons]
    cases e with
    | add observed fields =>
      change s.published.sequence + 1 + _ = _
      simp [isAdd]
      omega
    | poll limit => simp [isAdd, step]

def ModestEvent : ResultEvent → Prop
  | .add _ fields => Modest ((Json.obj fields).get "connection")
  | .poll _ => True

def Short (p : PublishedResults) : Prop := ∀ r ∈ p.records, r.size ≤ pollBytes

theorem add_short {p : PublishedResults} (h : Invariant p) (hshort : Short p)
    {observed : Nat} {fields : List (String × Json)}
    (hmodest : Modest ((Json.obj fields).get "connection"))
    (hcount : p.sequence + 1 < 2 ^ 64) : Short (p.add observed fields) := by
  obtain ⟨k, -, -, hkept, -⟩ := add_spec h observed fields
  intro r hr
  rw [hkept] at hr
  have hmem := List.mem_of_mem_drop hr
  simp only [List.mem_append, List.mem_singleton] at hmem
  rcases hmem with hold | rfl
  · exact hshort r hold
  · exact stamp_size_le hcount hmodest

theorem run_short {s : ResultSystem} (h : Accounts s) (hshort : Short s.published)
    {events : List ResultEvent} (hmodest : ∀ e ∈ events, ModestEvent e)
    (hcount : s.published.sequence + events.length < 2 ^ 64) :
    Short (run step s events).published := by
  induction events generalizing s with
  | nil => exact hshort
  | cons e events ih =>
    have hrest : ∀ e ∈ events, ModestEvent e := by
      intro e he
      exact hmodest e (by simp [he])
    simp only [List.length_cons] at hcount
    rw [run_cons]
    cases e with
    | add observed fields =>
      have hadd : ModestEvent (.add observed fields) := hmodest _ (by simp)
      refine ih (step_accounts s _ h) ?_ hrest ?_
      · exact add_short h.kept hshort hadd (by omega)
      · change s.published.sequence + 1 + _ < _
        omega
    | poll limit =>
      refine ih (step_accounts s _ h) hshort hrest ?_
      change s.published.sequence + _ < _
      omega

theorem polling_accounts_for_all (events : List ResultEvent) :
    (run step initial events).numbers.Pairwise (· < ·) ∧
    (∀ n, 0 < n → n ≤ (run step initial events).client.cursor →
      (n ∈ (run step initial events).numbers ↔
        n ∉ (run step initial events).client.lost)) ∧
    (run step initial events).published.bytes =
      ((run step initial events).published.records.map ResultRecord.size).sum ∧
    (∀ r ∈ (run step initial events).published.records,
      r.size = r.value.compact.length) ∧
    (run step initial events).published.bytes ≤ recordBytes ∧
    (run step initial events).published.records.length ≤ maxRecords ∧
    (run step initial events).published.evicted +
        (run step initial events).published.records.length =
      events.countP isAdd ∧
    ((∀ e ∈ events, ModestEvent e) → events.length < 2 ^ 64 → ∀ limit,
      (∃ r ∈ (run step initial events).published.records,
        (run step initial events).client.cursor < r.seq) →
      ((run step initial events).published.poll
          (run step initial events).client.cursor limit).records ≠ [] ∧
        (run step initial events).client.cursor <
          ((run step initial events).published.poll
            (run step initial events).client.cursor limit).next) := by
  have haccounts : Accounts (run step initial events) :=
    run_induction step_accounts initial_accounts events
  have hsequence := run_sequence initial events
  refine ⟨haccounts.ascending, ?_, haccounts.kept.bytes, ?_,
    haccounts.kept.bytes_le, haccounts.kept.records_le, ?_, ?_⟩
  · intro n hpos hn
    constructor
    · intro hgiven hlost
      exact haccounts.apart n hlost hgiven
    · intro hnot
      exact (haccounts.all n hpos hn).resolve_right hnot
  · intro r hr
    exact (haccounts.kept.values r hr).2
  · rw [haccounts.kept.added, hsequence]
    simp [initial, PublishedResults.initial]
  · intro hmodest hcount limit hnew
    have hshort : Short (run step initial events).published := by
      apply run_short initial_accounts _ hmodest
      · simpa [initial, PublishedResults.initial] using hcount
      · simp [Short, initial, PublishedResults.initial]
    have hgiven : ((run step initial events).published.poll
        (run step initial events).client.cursor limit).records ≠ [] :=
      poll_progress hshort hnew
    refine ⟨hgiven, ?_⟩
    obtain ⟨k, -, hrecords, hnext, -⟩ := poll_spec haccounts.kept
      (run step initial events).client.cursor limit
    have hk : k ≠ 0 := by
      rintro rfl
      apply hgiven
      simpa using hrecords
    rw [hnext, if_neg hk]
    omega

/-- The second result is added behind the poll that takes the first one. -/
def twoResults : List ResultEvent :=
  [.add 5 [("connection", .num 1)], .poll none, .add 6 [("connection", .num 2)]]

theorem polling_takes_second_result :
    (run step initial twoResults).client.cursor = 1 ∧
      ((run step initial twoResults).published.poll 1 none).records ≠ [] ∧
      1 < ((run step initial twoResults).published.poll 1 none).next := by
  have hcursor : (run step initial twoResults).client.cursor = 1 := by
    decide +kernel
  obtain ⟨-, -, -, -, -, -, -, hprogress⟩ := polling_accounts_for_all twoResults
  rw [hcursor] at hprogress
  refine ⟨hcursor, hprogress ?_ (by decide) none ?_⟩
  · have hmodest : ∀ n < 3, Modest (.num (n : Nat)) := by
      unfold Modest
      decide +kernel
    rintro e (_ | ⟨_, _ | ⟨_, _ | ⟨_, ⟨⟩⟩⟩⟩)
    exacts [hmodest 1 (by decide), trivial, hmodest 2 (by decide)]
  · decide +kernel

end ResultSystem

end ProxyLane.Mitm
