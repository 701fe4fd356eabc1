import ProxyLane.Foundation.Run
import ProxyLane.Foundation.Table
import ProxyLane.Foundation.Bytes

/-!
# Exchanges that do not fit in memory

While a recording runs, at most `limit` pending exchanges are held in memory;
the others are files in a working directory.  Against an ordered map that has
no limit, the same exchanges are found, changed and removed.  Only the order in
which they are listed, and how many of them a final drain hands out, differ.
-/

namespace ProxyLane.Recording

open ProxyLane.Foundation

structure Codec (α : Type) where
  encode : α → Bytes
  decode : Bytes → Option α

/-- Reading back gives the same exchange, and no exchange is written in four
bytes. -/
structure Codec.Lawful {α : Type} (codec : Codec α) : Prop where
  round : ∀ e, codec.decode (codec.encode e) = some e
  long : ∀ e, (codec.encode e).length ≠ 4

inductive Failure where
  | panic
  | error (reason : String)
  deriving DecidableEq, Repr

/-- `store` holds the files of the working directory; there is none without a
recording. -/
structure Pending (α : Type) where
  memory : Table α
  store : Option (Table Bytes)
  limit : Nat

/-- `PayloadCache::working_write` in the directory of the pending exchanges:
the text `null` removes a file. -/
def workingWrite (dir : Table Bytes) (id : Nat) (data : Bytes) : Table Bytes :=
  if data = ascii "null" then dir.erase id else dir.insert id data

namespace Pending

variable {α : Type}

/-- `configure` of a new table. -/
def configure (recording : Bool) (limit : Nat) : Pending α :=
  ⟨.empty, if recording then some .empty else none, limit⟩

def file (p : Pending α) (id : Nat) : Option Bytes :=
  (p.store.bind (·.get? id)).filter fun bytes => bytes.length != 4

def containsKey (p : Pending α) (id : Nat) : Bool :=
  p.memory.contains id || (p.file id).isSome

def room (codec : Codec α) (p : Pending α) : Except Failure (Pending α) :=
  if p.memory.size < p.limit then .ok p
  else
    match p.store with
    | none => .ok p
    | some dir =>
      match p.memory.entries.head? with
      | none => .error .panic
      | some (id, e) =>
        .ok { p with
          memory := p.memory.erase id
          store := some (workingWrite dir id (codec.encode e)) }

def insert (codec : Codec α) (p : Pending α) (id : Nat) (e : α) :
    Except Failure (Pending α) := do
  let p ← p.room codec
  return { p with memory := p.memory.insert id e }

def load (codec : Codec α) (p : Pending α) (id : Nat) :
    Except Failure (Pending α) :=
  if p.memory.contains id then .ok p
  else
    match p.file id with
    | none => .ok p
    | some bytes => do
        let p ← p.room codec
        match codec.decode bytes with
        | some e => return { p with memory := p.memory.insert id e }
        | none => .error (.error "analysis state read failed")

def getMut (codec : Codec α) (p : Pending α) (id : Nat) (change : α → α) :
    Except Failure (Pending α × Option α) := do
  let p ← p.load codec id
  return ({ p with memory := p.memory.modify id change }, p.memory.get? id)

def remove (codec : Codec α) (p : Pending α) (id : Nat) :
    Except Failure (Pending α × Option α) := do
  let p ← p.load codec id
  let store := p.store.map fun dir =>
    if dir.contains id then workingWrite dir id (ascii "null") else dir
  return ({ p with memory := p.memory.erase id, store }, p.memory.get? id)

/-- The exchanges in memory, then those on disk in the order in which the
directory is listed. -/
def keys (p : Pending α) (listing : List Nat) : List Nat :=
  p.memory.keys ++ listing.filter fun id =>
    !p.memory.contains id && (p.file id).isSome

def pushTail (limit : Nat) (bounded : Bool) (out : List α) (e : α) : List α :=
  (if bounded && limit ≤ out.length then out.drop 1 else out) ++ [e]

/-- The loop of `drain`; `close` sets the problem of an exchange. -/
def drainLoop (codec : Codec α) (close : α → α) :
    List Nat → Pending α → List α → Pending α × List α
  | [], p, out => (p, out)
  | id :: ids, p, out =>
    match p.remove codec id with
    | .error _ => (p, out)
    | .ok (p, none) => drainLoop codec close ids p out
    | .ok (p, some e) =>
      drainLoop codec close ids p (pushTail p.limit p.store.isSome out (close e))

def drain (codec : Codec α) (close : α → α) (p : Pending α)
    (listing : List Nat) : Pending α × List α :=
  drainLoop codec close (p.keys listing) p []

end Pending

inductive Op (α : Type) where
  | insert (id : Nat) (e : α)
  | getMut (id : Nat) (change : α → α)
  | remove (id : Nat)
  | containsKey (id : Nat)
  | keys (listing : List Nat)
  | drain (listing : List Nat)

inductive Result (α : Type) where
  | done
  | found (e : Option α)
  | contained (answer : Bool)
  | keys (ids : List Nat)
  | drained (exchanges : List α)
  deriving DecidableEq, Repr

section Machines

variable {α : Type} (codec : Codec α) (close : α → α)

def Pending.step (p : Pending α) :
    Op α → Except Failure (Pending α × Result α)
  | .insert id e => (p.insert codec id e).map fun p => (p, .done)
  | .getMut id change =>
    (p.getMut codec id change).map fun (p, e) => (p, .found e)
  | .remove id => (p.remove codec id).map fun (p, e) => (p, .found e)
  | .containsKey id => .ok (p, .contained (p.containsKey id))
  | .keys listing => .ok (p, .keys (p.keys listing))
  | .drain listing =>
    let (p, out) := p.drain codec close listing
    .ok (p, .drained out)

def Pending.run (p : Pending α) :
    List (Op α) → Except Failure (Pending α × List (Result α))
  | [] => .ok (p, [])
  | op :: ops => do
      let (p, result) ← p.step codec close op
      let (p, results) ← p.run ops
      return (p, result :: results)

def mapStep (m : Table α) : Op α → Table α × Result α
  | .insert id e => (m.insert id e, .done)
  | .getMut id change => (m.modify id change, .found (m.get? id))
  | .remove id => (m.erase id, .found (m.get? id))
  | .containsKey id => (m, .contained (m.contains id))
  | .keys _ => (m, .keys m.keys)
  | .drain _ => (.empty, .drained (m.values.map close))

def mapRun (m : Table α) : List (Op α) → Table α × List (Result α)
  | [] => (m, [])
  | op :: ops =>
    let (m, result) := mapStep close m op
    let (m, results) := mapRun m ops
    (m, result :: results)

def Listed (p : Pending α) : Op α → Prop
  | .keys listing | .drain listing =>
    ∀ dir, p.store = some dir → listing.Perm dir.keys
  | _ => True

def ListedRun (p : Pending α) : List (Op α) → Prop
  | [] => True
  | op :: ops => Listed p op ∧
      ∀ p' result, p.step codec close op = .ok (p', result) → ListedRun p' ops

end Machines

section Refinement

variable {α : Type} {codec : Codec α}

def Pending.lookup (codec : Codec α) (p : Pending α) (dir : Table Bytes)
    (id : Nat) : Option α :=
  match p.memory.get? id with
  | some e => some e
  | none => (dir.get? id).bind codec.decode

structure Refines (codec : Codec α) (p : Pending α) (m : Table α) : Prop where
  positive : 1 ≤ p.limit
  resident : p.memory.size ≤ p.limit
  store : ∃ dir, p.store = some dir ∧
    (∀ id bytes, dir.get? id = some bytes → ∃ e, bytes = codec.encode e) ∧
    ∀ id, m.get? id = p.lookup codec dir id

theorem workingWrite_encode (hcodec : codec.Lawful) (dir : Table Bytes)
    (id : Nat) (e : α) :
    workingWrite dir id (codec.encode e) = dir.insert id (codec.encode e) := by
  refine if_neg fun hnull => hcodec.long e ?_
  rw [hnull]
  decide

theorem workingWrite_null (dir : Table Bytes) (id : Nat) :
    workingWrite dir id (ascii "null") = dir.erase id :=
  if_pos rfl

variable {p : Pending α}

theorem Refines.file (hcodec : codec.Lawful)
    {dir : Table Bytes} (hstore : p.store = some dir)
    (hfiles : ∀ id bytes, dir.get? id = some bytes → ∃ e, bytes = codec.encode e)
    (id : Nat) : p.file id = dir.get? id := by
  rw [Pending.file, hstore, Option.bind_some]
  cases hget : dir.get? id with
  | none => rfl
  | some bytes =>
    obtain ⟨e, rfl⟩ := hfiles id bytes hget
    simp [hcodec.long e]

theorem head?_get? {t : Table α} {id : Nat} {e : α}
    (h : t.entries.head? = some (id, e)) : t.get? id = some e :=
  Table.get?_eq_some_iff.2 (List.mem_of_head? h)

variable {m : Table α}

theorem room_refines (hcodec : codec.Lawful) (h : Refines codec p m) :
    ∃ p', p.room codec = .ok p' ∧ p'.limit = p.limit ∧
      p'.memory.size < p'.limit ∧ Refines codec p' m := by
  obtain ⟨dir, hstore, hfiles, hlookup⟩ := h.store
  unfold Pending.room
  by_cases hroom : p.memory.size < p.limit
  · exact ⟨p, by rw [if_pos hroom], rfl, hroom, h⟩
  · rw [if_neg hroom, hstore]
    cases hhead : p.memory.entries.head? with
    | none =>
      have hnil := List.head?_eq_none_iff.1 hhead
      refine absurd ?_ hroom
      rw [Table.size, hnil]
      exact h.positive
    | some entry =>
      obtain ⟨id, e⟩ := entry
      have hget := head?_get? hhead
      have hsize := Table.size_erase (Table.mem_keys_of_get? hget)
      have hresident := h.resident
      refine ⟨_, rfl, rfl, ?_, h.positive, ?_, _, rfl, fun j bytes hj => ?_,
        fun j => ?_⟩
      · change (p.memory.erase id).size < p.limit
        omega
      · change (p.memory.erase id).size ≤ p.limit
        omega
      · rw [workingWrite_encode hcodec, Table.get?_insert] at hj
        split at hj
        · exact ⟨e, (Option.some.inj hj).symm⟩
        · exact hfiles j bytes hj
      · rw [hlookup, workingWrite_encode hcodec]
        simp only [Pending.lookup, Table.get?_erase, Table.get?_insert]
        by_cases hj : j = id
        · simp [hj, hget, hcodec.round]
        · simp [hj]

theorem insert_refines (hcodec : codec.Lawful)
    (h : Refines codec p m) (id : Nat) (e : α) :
    ∃ p', p.insert codec id e = .ok p' ∧ p'.limit = p.limit ∧
      Refines codec p' (m.insert id e) := by
  obtain ⟨p', hroom, hlimit, hless, h'⟩ := room_refines hcodec h
  obtain ⟨dir, hstore, hfiles, hlookup⟩ := h'.store
  refine ⟨{ p' with memory := p'.memory.insert id e }, ?_, hlimit, h'.positive,
    ?_, dir, hstore, hfiles, fun j => ?_⟩
  · rw [Pending.insert, hroom]
    rfl
  · change (p'.memory.insert id e).size ≤ p'.limit
    exact Nat.le_trans (Table.size_insert_le _ _ _) hless
  · rw [Table.get?_insert, hlookup]
    simp only [Pending.lookup, Table.get?_insert]
    by_cases hj : j = id <;> simp [hj]

theorem load_refines (hcodec : codec.Lawful) (h : Refines codec p m) (id : Nat) :
    ∃ p', p.load codec id = .ok p' ∧ p'.limit = p.limit ∧
      Refines codec p' m ∧ p'.memory.get? id = m.get? id := by
  obtain ⟨dir, hstore, hfiles, hlookup⟩ := h.store
  unfold Pending.load
  by_cases hmem : p.memory.contains id = true
  · refine ⟨p, by rw [if_pos hmem], rfl, h, ?_⟩
    obtain ⟨e, he⟩ := Option.isSome_iff_exists.1 hmem
    simp [hlookup, Pending.lookup, he]
  · have hnone : p.memory.get? id = none := by
      simpa [Table.contains] using hmem
    rw [if_neg hmem, Refines.file hcodec hstore hfiles]
    cases hget : dir.get? id with
    | none =>
      refine ⟨p, rfl, rfl, h, ?_⟩
      simp [hlookup, Pending.lookup, hnone, hget]
    | some bytes =>
      obtain ⟨e, rfl⟩ := hfiles id bytes hget
      obtain ⟨p', hroom, hlimit, hless, h'⟩ := room_refines hcodec h
      obtain ⟨dir', hstore', hfiles', hlookup'⟩ := h'.store
      have hfound : m.get? id = some e := by
        simp [hlookup, Pending.lookup, hnone, hget, hcodec.round]
      refine ⟨{ p' with memory := p'.memory.insert id e }, ?_, hlimit,
        ⟨h'.positive, ?_, dir', hstore', hfiles', fun j => ?_⟩, ?_⟩
      · simp only [hroom, hcodec.round]
        rfl
      · change (p'.memory.insert id e).size ≤ p'.limit
        exact Nat.le_trans (Table.size_insert_le _ _ _) hless
      · rw [Pending.lookup]
        simp only [Table.get?_insert]
        by_cases hj : j = id
        · simp [hj, hfound]
        · simp only [hj, if_false]
          exact hlookup' j
      · rw [Table.get?_insert, if_pos rfl, hfound]

theorem getMut_refines (hcodec : codec.Lawful)
    (h : Refines codec p m) (id : Nat) (change : α → α) :
    ∃ p', p.getMut codec id change = .ok (p', m.get? id) ∧
      p'.limit = p.limit ∧ Refines codec p' (m.modify id change) := by
  obtain ⟨p', hload, hlimit, h', hfound⟩ := load_refines hcodec h id
  obtain ⟨dir, hstore, hfiles, hlookup⟩ := h'.store
  refine ⟨{ p' with memory := p'.memory.modify id change }, ?_, hlimit,
    h'.positive, ?_, dir, hstore, hfiles, fun j => ?_⟩
  · rw [Pending.getMut, hload, ← hfound]
    rfl
  · rw [Table.size_modify]
    exact h'.resident
  · rw [Table.get?_modify, hlookup]
    simp only [Pending.lookup, Table.get?_modify]
    by_cases hj : j = id
    · subst hj
      -- an exchange that was on disk only is in memory now
      have hpresent := hlookup j
      rw [← hfound, Pending.lookup] at hpresent
      cases hget : p'.memory.get? j with
      | some e => simp
      | none =>
        rw [hget] at hpresent
        simp [← hpresent]
    · simp [hj]

theorem remove_refines (hcodec : codec.Lawful) (h : Refines codec p m) (id : Nat) :
    ∃ p', p.remove codec id = .ok (p', m.get? id) ∧ p'.limit = p.limit ∧
      Refines codec p' (m.erase id) := by
  obtain ⟨p', hload, hlimit, h', hfound⟩ := load_refines hcodec h id
  obtain ⟨dir, hstore, hfiles, hlookup⟩ := h'.store
  have hgone : (if dir.contains id then workingWrite dir id (ascii "null")
      else dir) = dir.erase id := by
    rw [workingWrite_null]
    split
    · rfl
    case isFalse hmissing =>
      refine Table.ext (List.filter_eq_self.2 fun entry hentry => ?_).symm
      refine bne_iff_ne.2 fun heq => hmissing (Table.contains_iff.2 ?_)
      exact heq ▸ List.mem_map_of_mem hentry
  refine ⟨{ p' with
    memory := p'.memory.erase id
    store := some (dir.erase id) }, ?_, hlimit, h'.positive, ?_, dir.erase id,
    rfl, fun j bytes hj => ?_, fun j => ?_⟩
  · rw [Pending.remove, hload, ← hfound]
    change Except.ok ({ p' with
      memory := p'.memory.erase id
      store := p'.store.map _ }, _) = _
    rw [hstore, Option.map_some, hgone]
  · refine Nat.le_trans ?_ h'.resident
    exact List.length_filter_le _ _
  · rw [Table.get?_erase] at hj
    split at hj
    · cases hj
    · exact hfiles j bytes hj
  · rw [Table.get?_erase, hlookup]
    simp only [Pending.lookup, Table.get?_erase]
    by_cases hj : j = id <;> simp [hj]

theorem containsKey_refines (hcodec : codec.Lawful)
    (h : Refines codec p m) (id : Nat) :
    p.containsKey id = m.contains id := by
  obtain ⟨dir, hstore, hfiles, hlookup⟩ := h.store
  rw [Pending.containsKey, Refines.file hcodec hstore hfiles, Table.contains,
    Table.contains, hlookup, Pending.lookup]
  cases hget : p.memory.get? id with
  | some e => rfl
  | none =>
    cases hfile : dir.get? id with
    | none => rfl
    | some bytes =>
      obtain ⟨e, rfl⟩ := hfiles id bytes hfile
      simp [hcodec.round]

/-- The numbers of the map, those in memory in ascending order first, then the
others in directory order. -/
def Pending.order (p : Pending α) (m : Table α) (listing : List Nat) : List Nat :=
  p.memory.keys ++ listing.filter fun id =>
    !p.memory.contains id && m.contains id

theorem keys_eq_order (hcodec : codec.Lawful) (h : Refines codec p m)
    (listing : List Nat) : p.keys listing = p.order m listing := by
  have hsame : ∀ id, (!p.memory.contains id && (p.file id).isSome) =
      (!p.memory.contains id && m.contains id) := by
    intro id
    rw [← containsKey_refines hcodec h, Pending.containsKey]
    cases p.memory.contains id <;> rfl
  simp only [Pending.keys, Pending.order, hsame]

theorem keys_refines (hcodec : codec.Lawful)
    (h : Refines codec p m) {listing : List Nat}
    (hlisted : ∀ dir, p.store = some dir → listing.Perm dir.keys) :
    (p.keys listing).Perm m.keys := by
  obtain ⟨dir, hstore, hfiles, -⟩ := h.store
  have hperm := hlisted dir hstore
  have hnodup : listing.Nodup := hperm.nodup_iff.2 dir.nodup_keys
  refine (List.perm_ext_iff_of_nodup ?_ m.nodup_keys).2 fun id => ?_
  · refine List.nodup_append.2 ⟨p.memory.nodup_keys, hnodup.filter _, ?_⟩
    rintro a ha b hb rfl
    simp [Table.contains_iff.2 ha] at hb
  · rw [← Table.contains_iff (t := m), ← containsKey_refines hcodec h,
      Pending.keys, List.mem_append, List.mem_filter, hperm.mem_iff,
      ← Table.contains_iff (t := p.memory), Pending.containsKey,
      Refines.file hcodec hstore hfiles, ← Table.contains_iff (t := dir)]
    unfold Table.contains
    cases p.memory.get? id <;> cases dir.get? id <;> simp

/-- The last `limit` of a list. -/
def lastOf (limit : Nat) (es : List α) : List α :=
  es.drop (es.length - limit)

private theorem pushTail_lastOf {limit : Nat} (hlimit : 1 ≤ limit) (es : List α)
    (e : α) :
    Pending.pushTail limit true (lastOf limit es) e = lastOf limit (es ++ [e]) := by
  unfold Pending.pushTail lastOf
  simp only [Bool.true_and, decide_eq_true_eq, List.length_drop,
    List.length_append, List.length_singleton]
  split
  case isTrue hfull =>
    rw [List.drop_drop, List.drop_append_of_le_length (by omega)]
    congr 2
    omega
  case isFalse hroom =>
    have hzero : es.length - limit = 0 := by omega
    have hzero' : es.length + 1 - limit = 0 := by omega
    rw [hzero, hzero', List.drop_zero, List.drop_zero]

theorem foldl_pushTail {limit : Nat} (hlimit : 1 ≤ limit) (es xs : List α) :
    xs.foldl (Pending.pushTail limit true) (lastOf limit es) =
      lastOf limit (es ++ xs) := by
  induction xs generalizing es with
  | nil => rw [List.foldl_nil, List.append_nil]
  | cons x xs ih =>
    rw [List.foldl_cons, pushTail_lastOf hlimit, ih, List.append_assoc]
    rfl

theorem drainLoop_refines (hcodec : codec.Lawful) (close : α → α) {ids : List Nat}
    (hnodup : ids.Nodup) (h : Refines codec p m)
    (hpresent : ∀ id ∈ ids, m.contains id = true) (out : List α) :
    ∃ p', Pending.drainLoop codec close ids p out =
        (p', ((ids.filterMap m.get?).map close).foldl
          (Pending.pushTail p.limit true) out) ∧
      p'.limit = p.limit ∧ Refines codec p' (ids.foldl Table.erase m) := by
  induction ids generalizing p m out with
  | nil => exact ⟨p, rfl, rfl, h⟩
  | cons id ids ih =>
    obtain ⟨hnew, hnodup⟩ := List.nodup_cons.1 hnodup
    obtain ⟨e, he⟩ := Option.isSome_iff_exists.1 (hpresent id List.mem_cons_self)
    obtain ⟨p', hremove, hlimit, h'⟩ := remove_refines hcodec h id
    obtain ⟨dir, hstore, -⟩ := h'.store
    have hother : ∀ j ∈ ids, (m.erase id).get? j = m.get? j := by
      intro j hj
      rw [Table.get?_erase, if_neg]
      rintro rfl
      exact hnew hj
    have hpresent' : ∀ j ∈ ids, (m.erase id).contains j = true := by
      intro j hj
      rw [Table.contains, hother j hj]
      exact hpresent j (List.mem_cons_of_mem _ hj)
    obtain ⟨p'', hloop, hlimit'', h''⟩ := ih hnodup h' hpresent'
      (Pending.pushTail p.limit true out (close e))
    refine ⟨p'', ?_, hlimit''.trans hlimit, h''⟩
    have hsame : ids.filterMap (m.erase id).get? = ids.filterMap m.get? :=
      List.filterMap_congr hother
    rw [Pending.drainLoop, hremove, he]
    simp only [hstore, hlimit, Option.isSome_some]
    rw [hloop, hsame, hlimit, List.filterMap_cons, he]
    rfl

theorem foldl_erase_get? (ids : List Nat) (m : Table α) (id : Nat) :
    (ids.foldl Table.erase m).get? id = if id ∈ ids then none else m.get? id := by
  induction ids generalizing m with
  | nil => simp
  | cons j ids ih =>
    rw [List.foldl_cons, ih, Table.get?_erase]
    by_cases hid : id = j <;> simp [hid]

theorem drain_refines (hcodec : codec.Lawful) (close : α → α)
    (h : Refines codec p m) {listing : List Nat}
    (hlisted : ∀ dir, p.store = some dir → listing.Perm dir.keys) :
    ∃ p', p.drain codec close listing = (p', lastOf p.limit
        (((p.order m listing).filterMap m.get?).map close)) ∧
      p'.limit = p.limit ∧ Refines codec p' .empty := by
  have hkeys := keys_refines hcodec h hlisted
  have hpresent : ∀ id ∈ p.keys listing, m.contains id = true :=
    fun id hid => Table.contains_iff.2 (hkeys.mem_iff.1 hid)
  obtain ⟨p', hloop, hlimit, h'⟩ := drainLoop_refines hcodec close
    (hkeys.nodup_iff.2 m.nodup_keys) h hpresent []
  refine ⟨p', ?_, hlimit, ?_⟩
  · rw [← keys_eq_order hcodec h, Pending.drain, hloop]
    have hfold := foldl_pushTail h.positive []
      (((p.keys listing).filterMap m.get?).map close)
    have hnil : lastOf p.limit ([] : List α) = [] := List.drop_nil
    rw [List.nil_append, hnil] at hfold
    exact congrArg _ hfold
  · obtain ⟨dir, hstore, hfiles, hlookup⟩ := h'.store
    refine ⟨h'.positive, h'.resident, dir, hstore, hfiles, fun id => ?_⟩
    rw [← hlookup, foldl_erase_get?, Table.get?_empty]
    split
    · rfl
    case isFalse hid =>
      rw [hkeys.mem_iff] at hid
      exact (Table.get?_eq_none_iff.2 hid).symm

/-- What an operation gives: a listing has every number of the map once, in
`order`; a drain hands out the last `limit` of the exchanges in that order; the
others give what they give on the map. -/
def Agree (close : α → α) (p : Pending α) (m : Table α) :
    Op α → Result α → Prop
  | .keys listing, result =>
    (p.order m listing).Perm m.keys ∧ result = .keys (p.order m listing)
  | .drain listing, result => (p.order m listing).Perm m.keys ∧
      result = .drained (lastOf p.limit
        (((p.order m listing).filterMap m.get?).map close))
  | op, result => result = (mapStep close m op).2

/-- A run beside that of the map, the results agreeing at each operation. -/
def AgreeRun (codec : Codec α) (close : α → α) (p : Pending α) (m : Table α) :
    List (Op α) → List (Result α) → Prop
  | [], results => results = []
  | op :: ops, results => ∃ p' result rest, results = result :: rest ∧
      p.step codec close op = .ok (p', result) ∧ Agree close p m op result ∧
      AgreeRun codec close p' (mapStep close m op).1 ops rest

theorem step_refines (hcodec : codec.Lawful) (close : α → α)
    (h : Refines codec p m) {op : Op α} (hlisted : Listed p op) :
    ∃ p' result, p.step codec close op = .ok (p', result) ∧
      p'.limit = p.limit ∧ Refines codec p' (mapStep close m op).1 ∧
      Agree close p m op result := by
  cases op with
  | insert id e =>
    obtain ⟨p', heq, hlimit, h'⟩ := insert_refines hcodec h id e
    exact ⟨p', .done, by rw [Pending.step, heq]; rfl, hlimit, h', rfl⟩
  | getMut id change =>
    obtain ⟨p', heq, hlimit, h'⟩ := getMut_refines hcodec h id change
    exact ⟨p', .found (m.get? id), by rw [Pending.step, heq]; rfl, hlimit, h', rfl⟩
  | remove id =>
    obtain ⟨p', heq, hlimit, h'⟩ := remove_refines hcodec h id
    exact ⟨p', .found (m.get? id), by rw [Pending.step, heq]; rfl, hlimit, h', rfl⟩
  | containsKey id =>
    refine ⟨p, _, rfl, rfl, h, ?_⟩
    rw [containsKey_refines hcodec h]
    rfl
  | keys listing =>
    have hkeys := keys_refines hcodec h hlisted
    have horder := keys_eq_order hcodec h listing
    exact ⟨p, _, rfl, rfl, h, horder ▸ hkeys, by rw [horder]⟩
  | drain listing =>
    have hkeys := keys_refines hcodec h hlisted
    rw [keys_eq_order hcodec h] at hkeys
    obtain ⟨p', heq, hlimit, h'⟩ := drain_refines hcodec close h hlisted
    exact ⟨p', _, by rw [Pending.step, heq], hlimit, h', hkeys, rfl⟩

theorem run_refines (hcodec : codec.Lawful) {close : α → α} {ops : List (Op α)}
    (h : Refines codec p m) (hlisted : ListedRun codec close p ops) :
    ∃ p' results, p.run codec close ops = .ok (p', results) ∧
      p'.limit = p.limit ∧ Refines codec p' (mapRun close m ops).1 ∧
      AgreeRun codec close p m ops results := by
  induction ops generalizing p m with
  | nil => exact ⟨p, [], rfl, rfl, h, rfl⟩
  | cons op ops ih =>
    obtain ⟨p', result, hstep, hlimit, h', hagree⟩ :=
      step_refines hcodec close h hlisted.1
    obtain ⟨p'', results, hrun, hlimit', h'', hall⟩ :=
      ih h' (hlisted.2 p' result hstep)
    refine ⟨p'', result :: results, ?_, hlimit'.trans hlimit, h'',
      p', result, results, rfl, hstep, hagree, hall⟩
    rw [Pending.run, hstep]
    change (do
      let (p, results) ← p'.run codec close ops
      return (p, result :: results)) = _
    rw [hrun]
    rfl

end Refinement

/--
With a limit of at least one, a run of operations on the pending exchanges of
a recording gives, operation by operation, the results of an ordered map:
insertions, changes, removals and membership tests the same, listings the same
numbers once each, those in memory first, and a drain the last `limit` of the
exchanges in that order, after which nothing is left.  No more than `limit`
exchanges are in memory.
-/
theorem pending_refines_map {α : Type} {codec : Codec α}
    (hcodec : codec.Lawful) (close : α → α) {limit : Nat}
    (hlimit : 1 ≤ limit) {ops : List (Op α)}
    (hlisted : ListedRun codec close (.configure true limit) ops) :
    ∃ p results, (Pending.configure true limit).run codec close ops =
        .ok (p, results) ∧
      p.memory.size ≤ limit ∧
      (∀ id, p.containsKey id = (mapRun close .empty ops).1.contains id) ∧
      AgreeRun codec close (.configure true limit) .empty ops results := by
  have hstart : Refines codec (.configure true limit) .empty :=
    ⟨hlimit, Nat.zero_le _, .empty, rfl, nofun, fun _ => rfl⟩
  obtain ⟨p, results, hrun, hsame, h, hall⟩ :=
    run_refines hcodec hstart hlisted
  refine ⟨p, results, hrun, ?_, containsKey_refines hcodec h, hall⟩
  rw [show limit = p.limit from hsame.symm]
  exact h.resident

def byteCodec : Codec UInt8 where
  encode e := [e, 0]
  decode
    | [e, 0] => some e
    | _ => none

def spilledOps : List (Op UInt8) :=
  [.insert 1 10, .insert 2 20, .keys [1], .drain [1]]

theorem drain_hands_out_tail :
    ((Pending.configure true 1).run byteCodec id spilledOps).toOption.map
        Prod.snd =
      some [.done, .done, .keys [2, 1], .drained [10]] ∧
    (mapRun id .empty spilledOps).2 =
      [.done, .done, .keys [1, 2], .drained [10, 20]] := by
  decide

theorem pending_refines_map_sample :
    byteCodec.Lawful ∧ ∃ p results,
      (Pending.configure true 1).run byteCodec id
          [.insert 1 10, .insert 2 20, .getMut 1 (· + 1), .remove 1] =
        .ok (p, results) ∧ p.memory.size ≤ 1 := by
  have hcodec : byteCodec.Lawful := ⟨fun _ => rfl, fun _ => by simp [byteCodec]⟩
  have hlisted : ListedRun byteCodec id (.configure true 1)
      [.insert 1 10, .insert 2 20, .getMut 1 (· + 1), .remove 1] :=
    ⟨trivial, fun _ _ _ => ⟨trivial, fun _ _ _ => ⟨trivial, fun _ _ _ =>
      ⟨trivial, fun _ _ _ => trivial⟩⟩⟩⟩
  obtain ⟨p, results, hrun, hsize, -⟩ :=
    pending_refines_map hcodec id (Nat.le_refl 1) hlisted
  exact ⟨hcodec, p, results, hrun, hsize⟩

end ProxyLane.Recording
