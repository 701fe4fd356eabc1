import Mathlib.Data.Fintype.Pi
import ProxyLane.Foundation.Dataflow

/-!
# Register provenance in the completion function

The locator decodes the function that completes a verification and follows
where the job, its host and the verification result are kept.  An instruction
is the answers of the decoder's accessors.  A register holds a provenance that
every way to the instruction agrees on, or is `unknown`.
-/

namespace ProxyLane.Mitm.QuicLocatorFlow

open ProxyLane.Foundation

inductive Register where
  | none
  | low8 (n : Fin 16)
  | high8 (n : Fin 4)
  | word (n : Fin 16)
  | dword (n : Fin 16)
  | qword (n : Fin 16)
  | other (code size : Nat)
  deriving DecidableEq, Repr

namespace Register

def rcx : Register := .qword 1
def edx : Register := .dword 2
def al : Register := .low8 0

def size : Register → Nat
  | .none => 0
  | .low8 _ => 1
  | .high8 _ => 1
  | .word _ => 2
  | .dword _ => 4
  | .qword _ => 8
  | .other _ size => size

def isHigh : Register → Bool
  | .high8 _ => true
  | _ => false

end Register

inductive Mnemonic where
  | mov
  | movzx
  | lea
  | xor
  | other
  deriving DecidableEq, Repr

inductive FlowControl where
  | next
  | unconditionalBranch
  | indirectBranch
  | conditionalBranch
  | return
  | call
  | indirectCall
  | interrupt
  | xbeginXabortXend
  | exception
  deriving DecidableEq, Repr

inductive OpAccess where
  | none
  | read
  | condRead
  | write
  | condWrite
  | readWrite
  | readCondWrite
  | noMemAccess
  deriving DecidableEq, Repr

inductive Operand where
  | register (r : Register)
  | immediate (value : BitVec 64)
  | memory
  | other
  deriving DecidableEq, Repr

structure Instruction where
  ip : BitVec 64
  mnemonic : Mnemonic
  op0 : Operand
  op1 : Operand
  memoryBase : Register
  memoryIndex : Register
  segmentPrefix : Register
  memoryDisplacement64 : BitVec 64
  memorySize : Nat
  usedRegisters : List (Register × OpAccess)
  flowControl : FlowControl
  isJccShortOrNear : Bool
  isJmpShortOrNear : Bool
  nearBranchTarget : BitVec 64
  deriving DecidableEq, Repr

inductive Value where
  | unknown
  | job
  | address (a : Int)
  | certificate (a : Int)
  | root (a b : Int)
  | status
  | allow
  | constant (c : BitVec 64)
  deriving DecidableEq, Repr

namespace Value

def meet (a b : Value) : Value :=
  if a = b then a else .unknown

instance : SemilatticeInf Value where
  le a b := a = .unknown ∨ a = b
  le_refl a := .inr rfl
  le_trans a b c := by
    rintro (rfl | rfl) hbc
    · exact .inl rfl
    · exact hbc
  le_antisymm a b := by
    rintro (rfl | rfl) hba
    · rcases hba with rfl | rfl <;> rfl
    · rfl
  inf := meet
  inf_le_left a b := by
    unfold meet
    split
    · exact .inr rfl
    · exact .inl rfl
  inf_le_right a b := by
    unfold meet
    split
    · rename_i h
      exact .inr h
    · exact .inl rfl
  le_inf a b c := by
    unfold meet
    rintro (rfl | rfl) hac
    · exact .inl rfl
    · split
      · exact .inr rfl
      · rename_i h
        exact .inl (hac.resolve_right h)

theorem monotone_of_unknown {f : Value → Value} (h : f .unknown = .unknown) :
    Monotone f := by
  rintro a b (rfl | rfl)
  · exact .inl h
  · exact le_rfl

end Value

abbrev Registers := Fin 16 → Value

def reg : Register → Option (Fin 16)
  | .low8 n => some n
  | .high8 n => some (n.castLE (by decide))
  | .word n => some n
  | .dword n => some n
  | .qword n => some n
  | _ => none

def get (s : Registers) (r : Register) : Value :=
  (reg r).elim .unknown s

def put (s : Registers) (r : Register) (v : Value) : Registers :=
  match reg r with
  | some n => Function.update s n v
  | none => s

/-- Addition of `i64`; `none` is an overflow. -/
def checkedAdd (a d : Int) : Option Int :=
  if -2 ^ 63 ≤ a + d ∧ a + d < 2 ^ 63 then some (a + d) else none

def displaced (d : Int) : Value → Value
  | .job => .address d
  | .address a => (checkedAdd a d).elim .unknown .address
  | _ => .unknown

def address (s : Registers) (i : Instruction) : Value :=
  if i.memoryIndex ≠ .none ∨ i.segmentPrefix ≠ .none then .unknown
  else displaced i.memoryDisplacement64.toInt (get s i.memoryBase)

/-- What a part of a register keeps of its provenance: a truncated pointer or
a stale high part has none. -/
def truncated (r : Register) : Value → Value
  | .job => if r.size ≠ 8 then .unknown else .job
  | .address a => if r.size ≠ 8 then .unknown else .address a
  | .certificate a => if r.size ≠ 8 then .unknown else .certificate a
  | .status => if r.size ≠ 4 then .unknown else .status
  | .allow => if r ≠ .al then .unknown else .allow
  | .root a b => if r.isHigh then .unknown else .root a b
  | .constant c =>
    if r.size < 8 then
      let c := if r.isHigh then c >>> 8 else c
      .constant (c &&& ((1 : BitVec 64) <<< (r.size * 8) - 1))
    else .constant c
  | .unknown => .unknown

/-- What a load of `size` bytes finds at a displacement from the base. -/
def loaded (d : Int) (size : Nat) : Value → Value
  | .job => if size = 8 then .certificate d else .unknown
  | .address a =>
    if size = 8 then (checkedAdd a d).elim .unknown .certificate
    else .unknown
  | .certificate a => if size = 1 then .root a d else .unknown
  | _ => .unknown

def operand (s : Registers) (i : Instruction) (op : Operand) : Value :=
  match op with
  | .register r => truncated r (get s r)
  | .immediate c => .constant c
  | .memory =>
    if i.memoryIndex ≠ .none ∨ i.segmentPrefix ≠ .none then .unknown
    else loaded i.memoryDisplacement64.toInt i.memorySize (get s i.memoryBase)
  | .other => .unknown

/-- `value` as a register of `size` bytes takes it. -/
def narrowed (size : Nat) : Value → Value
  | .job => if size ≠ 8 then .unknown else .job
  | .address a => if size ≠ 8 then .unknown else .address a
  | .certificate a => if size ≠ 8 then .unknown else .certificate a
  | v => v

/-- The value that an instruction puts into its first operand, if it is one of
those that are followed.  A partial write establishes none. -/
def assignment (s : Registers) (i : Instruction) : Option Value :=
  match i.op0 with
  | .register r =>
    let value :=
      match i.mnemonic with
      | .mov => some (operand s i i.op1)
      | .movzx => some (operand s i i.op1)
      | .lea => some (address s i)
      | .xor => if i.op1 = Operand.register r then some (.constant 0) else none
      | .other => none
    if r.size < 4 then none else value.map (narrowed r.size)
  | _ => none

def isCertificate : Value → Bool
  | .certificate _ => true
  | .root _ _ => true
  | _ => false

def clobberCall (s : Registers) : Registers :=
  let s := ([0, 1, 2, 8, 9, 10, 11] : List (Fin 16)).foldl
    (fun s n => put s (.qword n) .unknown) s
  fun n => if isCertificate (s n) then .unknown else s n

def OpAccess.writes : OpAccess → Bool
  | .write => true
  | .condWrite => true
  | .readWrite => true
  | .readCondWrite => true
  | _ => false

def clobberUsed (used : List (Register × OpAccess)) (s : Registers) :
    Registers :=
  used.foldl (fun s u => if u.2.writes then put s u.1 .unknown else s) s

def Instruction.op0Register (i : Instruction) : Register :=
  match i.op0 with
  | .register r => r
  | _ => .none

def Instruction.isCall (i : Instruction) : Bool :=
  i.flowControl = .call ∨ i.flowControl = .indirectCall

def transfer (i : Instruction) (s : Registers) : Registers :=
  let written := clobberUsed i.usedRegisters s
  let assigned := (assignment s i).elim written (put written i.op0Register)
  if i.isCall then clobberCall assigned else assigned

def position (ins : List Instruction) (ip : BitVec 64) :
    Option (Fin ins.length) :=
  (List.finRange ins.length).reverse.find? fun n => ins[n].ip = ip

def Instruction.continues (i : Instruction) : Bool :=
  i.flowControl = .next ∨ i.flowControl = .call ∨
    i.flowControl = .indirectCall ∨ i.flowControl = .conditionalBranch

def next (ins : List Instruction) (n : Fin ins.length) :
    List (Fin ins.length) :=
  let i := ins[n]
  let through :=
    if h : n.val + 1 < ins.length then
      if i.continues then [⟨n.val + 1, h⟩] else []
    else []
  let branch :=
    if i.isJccShortOrNear || i.isJmpShortOrNear then
      (position ins i.nearBranchTarget).toList
    else []
  through ++ branch

def entry : Registers :=
  put (put (fun _ => .unknown) .rcx .job) .edx .status

theorem get_mono {s t : Registers} (h : s ≤ t) (r : Register) :
    get s r ≤ get t r := by
  unfold get
  cases reg r with
  | none => exact le_rfl
  | some n => exact h n

theorem put_mono {s t : Registers} (h : s ≤ t) (r : Register) {v w : Value}
    (hv : v ≤ w) : put s r v ≤ put t r w := by
  unfold put
  cases reg r with
  | none => exact h
  | some n => exact update_le_update_iff.2 ⟨hv, fun k _ => h k⟩

private theorem displaced_mono (d : Int) : Monotone (displaced d) :=
  Value.monotone_of_unknown rfl

theorem truncated_mono (r : Register) : Monotone (truncated r) :=
  Value.monotone_of_unknown rfl

theorem loaded_mono (d : Int) (size : Nat) : Monotone (loaded d size) :=
  Value.monotone_of_unknown rfl

theorem narrowed_mono (size : Nat) : Monotone (narrowed size) :=
  Value.monotone_of_unknown rfl

theorem address_mono {s t : Registers} (h : s ≤ t) (i : Instruction) :
    address s i ≤ address t i := by
  unfold address
  split
  · exact le_rfl
  · exact displaced_mono _ (get_mono h _)

theorem operand_mono {s t : Registers} (h : s ≤ t) (i : Instruction)
    (op : Operand) : operand s i op ≤ operand t i op := by
  cases op with
  | register r => exact truncated_mono r (get_mono h r)
  | immediate c => exact le_rfl
  | memory =>
    unfold operand
    dsimp only
    split
    · exact le_rfl
    · exact loaded_mono _ _ (get_mono h _)
  | other => exact le_rfl

/-- Whether a value is put depends on the instruction alone, and the value
grows with what is known. -/
theorem assignment_mono {s t : Registers} (h : s ≤ t) (i : Instruction) :
    Option.Rel (· ≤ ·) (assignment s i) (assignment t i) := by
  unfold assignment
  cases i.op0 with
  | register r =>
    dsimp only
    split
    · exact .none
    · cases i.mnemonic with
      | mov => exact .some (narrowed_mono _ (operand_mono h i i.op1))
      | movzx => exact .some (narrowed_mono _ (operand_mono h i i.op1))
      | lea => exact .some (narrowed_mono _ (address_mono h i))
      | xor =>
        dsimp only
        split
        · exact .some le_rfl
        · exact .none
      | other => exact .none
  | immediate c => exact .none
  | memory => exact .none
  | other => exact .none

theorem foldl_mono {β : Type} {f : Registers → β → Registers}
    (hf : ∀ b, Monotone fun s => f s b) (l : List β) :
    Monotone fun s => l.foldl f s := by
  intro s t h
  induction l generalizing s t with
  | nil => exact h
  | cons b l ih => exact ih (hf b h)

theorem clobberUsed_mono (used : List (Register × OpAccess)) :
    Monotone (clobberUsed used) := by
  apply foldl_mono
  intro u s t h
  dsimp only
  split
  · exact put_mono h u.1 le_rfl
  · exact h

theorem clobberCall_mono : Monotone clobberCall := by
  intro s t h n
  have through := foldl_mono
    (fun n s t (h : s ≤ t) => put_mono h (.qword n) (le_refl Value.unknown))
    ([0, 1, 2, 8, 9, 10, 11] : List (Fin 16)) h n
  have forget : Monotone fun v : Value =>
      if isCertificate v then .unknown else v :=
    Value.monotone_of_unknown rfl
  exact forget through

theorem transfer_mono (i : Instruction) : Monotone (transfer i) := by
  intro s t h
  have written := clobberUsed_mono i.usedRegisters h
  have assigned : (assignment s i).elim (clobberUsed i.usedRegisters s)
        (put (clobberUsed i.usedRegisters s) i.op0Register) ≤
      (assignment t i).elim (clobberUsed i.usedRegisters t)
        (put (clobberUsed i.usedRegisters t) i.op0Register) := by
    have values := assignment_mono h i
    generalize assignment s i = v at values ⊢
    generalize assignment t i = w at values ⊢
    cases values with
    | none => exact written
    | some hv => exact put_mono written i.op0Register hv
  unfold transfer
  dsimp only
  split
  · exact clobberCall_mono assigned
  · exact assigned

def dataflow (ins : List Instruction) (h : 0 < ins.length) :
    Dataflow (Fin ins.length) Registers where
  entry := ⟨0, h⟩
  start := entry
  next := next ins
  pass n := transfer ins[n]
  mono n := transfer_mono ins[n]

inductive Failure where
  | panic
  | budget
  deriving DecidableEq, Repr

/-- The facts in front of the instructions; `⊤` is `None`.  The work list is
looked at in the order `order`, which is the identity for the queue. -/
def facts (ins : List Instruction)
    (order : Nat → List (Fin ins.length) → List (Fin ins.length)) :
    Except Failure (Fin ins.length → WithTop Registers) :=
  if h : 0 < ins.length then
    match (dataflow ins h).solve order (ins.length * 64) with
    | .ok facts => .ok facts
    | .error .unreached => .error .panic
    | .error .budget => .error .budget
  else .error .panic

/-- Control gets from one listed instruction to another: through the end of
the first, or by its branch if it is one of `branches`. -/
inductive Flow (branches : Instruction → Prop) (ins : List Instruction) :
    Fin ins.length → Fin ins.length → Prop
  | through {n m : Fin ins.length} : ins[n].continues → m.val = n.val + 1 →
      Flow branches ins n m
  | branch {n m : Fin ins.length} : branches ins[n] →
      position ins ins[n].nearBranchTarget = some m → Flow branches ins n m

/-- A path from the first instruction ends in front of `n`, and what the
instructions on it do leaves the registers `s`. -/
inductive Path (branches : Instruction → Prop) (ins : List Instruction) :
    Fin ins.length → Registers → Prop
  | entry {n : Fin ins.length} : n.val = 0 → Path branches ins n entry
  | flow {n m : Fin ins.length} {s : Registers} : Path branches ins n s →
      Flow branches ins n m → Path branches ins m (transfer ins[n] s)

def Instruction.Followed (i : Instruction) : Prop :=
  i.isJccShortOrNear ∨ i.isJmpShortOrNear

theorem mem_next_iff {ins : List Instruction} {n m : Fin ins.length} :
    m ∈ next ins n ↔ Flow Instruction.Followed ins n m := by
  have through : (m ∈ if h : n.val + 1 < ins.length then
        if ins[n].continues then [(⟨n.val + 1, h⟩ : Fin ins.length)] else []
      else []) ↔ ins[n].continues ∧ m.val = n.val + 1 := by
    have := m.isLt
    split
    · split <;> simp_all [Fin.ext_iff]
    · simp
      omega
  have branch : (m ∈ if ins[n].isJccShortOrNear || ins[n].isJmpShortOrNear then
        (position ins ins[n].nearBranchTarget).toList else []) ↔
      ins[n].Followed ∧ position ins ins[n].nearBranchTarget = some m := by
    unfold Instruction.Followed
    split <;> simp_all
  unfold next
  dsimp only
  rw [List.mem_append, through, branch]
  constructor
  · rintro (⟨h, hm⟩ | ⟨h, hm⟩)
    · exact .through h hm
    · exact .branch h hm
  · rintro (⟨h, hm⟩ | ⟨h, hm⟩)
    · exact .inl ⟨h, hm⟩
    · exact .inr ⟨h, hm⟩

theorem arrives_iff {ins : List Instruction} (h : 0 < ins.length)
    {n : Fin ins.length} {s : Registers} :
    (dataflow ins h).Arrives n s ↔ Path Instruction.Followed ins n s := by
  constructor
  · intro path
    induction path with
    | entry => exact .entry rfl
    | edge _ edge ih => exact ih.flow (mem_next_iff.1 edge)
  · intro path
    induction path with
    | @entry n zero =>
      have here : n = (dataflow ins h).entry := Fin.ext zero
      exact here ▸ .entry
    | flow _ flow ih => exact ih.edge (mem_next_iff.2 flow)

def known (s : Registers) : Nat :=
  (Finset.univ.filter fun n => s n ≠ .unknown).card

theorem known_strictMono : StrictMono known := by
  intro s t h
  obtain ⟨le, n, lt⟩ := Pi.lt_def.1 h
  apply Finset.card_lt_card
  rw [Finset.ssubset_iff_of_subset]
  · refine ⟨n, ?_, ?_⟩
    · rcases lt.le with h | h
      · simpa [h] using lt.ne'
      · exact absurd h lt.ne
    · rcases lt.le with h | h
      · simp [h]
      · exact absurd h lt.ne
  · intro k hk
    rcases le k with h | h
    · simp [h] at hk
    · simpa [← h] using hk

theorem known_le (s : Registers) : known s ≤ 16 :=
  (Finset.card_filter_le _ _).trans (by simp)

/-- In any order the loop ends within its budget, with the same facts: those
that hold along every path, in front of the instructions that have one. -/
theorem facts_outcome {ins : List Instruction} (h : 0 < ins.length) :
    ∃ fs, (dataflow ins h).Outcome fs ∧
      ∀ order, (∀ k work, (order k work).Perm work) → facts ins order = .ok fs := by
  have enough : 1 + Fintype.card (Fin ins.length) * (16 + 1) ≤
      ins.length * 64 := by
    rw [Fintype.card_fin]
    omega
  obtain ⟨fs, -, outcome⟩ := Dataflow.solve_outcome (dataflow ins h)
    known_strictMono known_le (fun _ work => List.Perm.refl work) enough
  refine ⟨fs, outcome, fun order perm => ?_⟩
  obtain ⟨gs, run, same⟩ := Dataflow.solve_outcome (dataflow ins h)
    known_strictMono known_le perm enough
  simp only [facts, h, dite_true, run, outcome.unique same]

theorem facts_sound (ins : List Instruction) (nonempty : ins ≠ []) :
    ∃ fs : Fin ins.length → WithTop Registers,
      (∀ order, (∀ k work, (order k work).Perm work) → facts ins order = .ok fs) ∧
      ∀ n, (fs n ≠ ⊤ ↔ ∃ s, Path Instruction.Followed ins n s) ∧
        ∀ f : Registers, fs n = f → ∀ r, f r ≠ .unknown →
          ∀ s, Path Instruction.Followed ins n s → s r = f r := by
  have h : 0 < ins.length := List.length_pos_iff.2 nonempty
  obtain ⟨fs, outcome, run⟩ := facts_outcome h
  refine ⟨fs, run, fun n => ⟨?_, ?_⟩⟩
  · simp only [outcome.reached_iff, arrives_iff]
  · intro f hf r hr s path
    have below := outcome.solution.le_of_arrives ((arrives_iff h).2 path)
    rw [hf] at below
    rcases WithTop.coe_le_coe.1 below r with unknown | same
    · exact absurd unknown hr
    · exact same.symm

/-- An instruction without operands at `ip`. -/
def plain (ip : BitVec 64) (flow : FlowControl) : Instruction where
  ip := ip
  mnemonic := .other
  op0 := .other
  op1 := .other
  memoryBase := .none
  memoryIndex := .none
  segmentPrefix := .none
  memoryDisplacement64 := 0
  memorySize := 0
  usedRegisters := []
  flowControl := flow
  isJccShortOrNear := false
  isJmpShortOrNear := false
  nearBranchTarget := 0

/-- `mov rbx, rcx`. -/
def saveJob (ip : BitVec 64) : Instruction :=
  { plain ip .next with
    mnemonic := .mov
    op0 := .register (.qword 3)
    op1 := .register .rcx
    usedRegisters := [(.rcx, .read), (.qword 3, .write)] }

/-- `jne` to `target`. -/
def jne (ip target : BitVec 64) : Instruction :=
  { plain ip .conditionalBranch with
    isJccShortOrNear := true
    nearBranchTarget := target }

/-- `jrcxz` to `target`; it is no `Jcc` to the decoder. -/
def jrcxz (ip target : BitVec 64) : Instruction :=
  { plain ip .conditionalBranch with
    usedRegisters := [(.rcx, .read)]
    nearBranchTarget := target }

theorem facts_sound_loop :
    ∃ fs : Fin 3 → WithTop Registers,
      (∀ order, (∀ k work, (order k work).Perm work) →
        facts [saveJob 0x10, jne 0x13 0x10, plain 0x15 .return] order = .ok fs) ∧
      ∀ n : Fin 3, (fs n ≠ ⊤ ↔ ∃ s, Path Instruction.Followed
          [saveJob 0x10, jne 0x13 0x10, plain 0x15 .return] n s) ∧
        ∀ f : Registers, fs n = f → ∀ r, f r ≠ .unknown →
          ∀ s, Path Instruction.Followed
            [saveJob 0x10, jne 0x13 0x10, plain 0x15 .return] n s → s r = f r :=
  facts_sound [saveJob 0x10, jne 0x13 0x10, plain 0x15 .return] (List.cons_ne_nil _ _)

/-- The list without instructions panics, and what holds behind `jrcxz` need
not hold on the path on which it branches. -/
theorem facts_not_sound :
    facts [] (fun _ work => work) = .error .panic ∧
      ((facts [jrcxz 0x10 0x15, saveJob 0x12, plain 0x15 .return]
          (fun _ work => work)).toOption.map fun fs =>
        (fs 2).map fun f => f 3) = some (Value.job : WithTop Value) ∧
      ∃ s, s 3 = .unknown ∧
        Path (fun i => i.Followed ∨ i.flowControl = .conditionalBranch)
          [jrcxz 0x10 0x15, saveJob 0x12, plain 0x15 .return] 2 s := by
  refine ⟨rfl, by decide, transfer (jrcxz 0x10 0x15) entry, ?_, ?_⟩
  · decide
  · exact (Path.entry (n := 0) rfl).flow (.branch (.inr rfl) (by decide))

end ProxyLane.Mitm.QuicLocatorFlow
