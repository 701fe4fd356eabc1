import ProxyLane.Mitm.QuicProbe

/-!
# Fragments of a ClientHello

CRYPTO frames carry the bytes of one text at any offsets, in any order and with
any overlap.  The bytes that have arrived are those of the text, so the probe
parses the same ClientHello whatever the order; frames that disagree on a byte
end the inspection before they are mixed.
-/

namespace ProxyLane.Mitm.QuicProbe

open ProxyLane.Foundation

/-! ## Numbers on the wire -/

theorem beBytes_succ_front (w n : Nat) :
    beBytes (w + 1) n = UInt8.ofNat (n / 256 ^ w) :: beBytes w n := by
  induction w generalizing n with
  | zero => simp [beBytes]
  | succ w ih =>
    rw [beBytes, ih, beBytes]
    rw [Nat.div_div_eq_div_mul, ← Nat.pow_succ']
    rfl

/-- A number in the form of 1, 2, 4 or 8 bytes; the form need not be the
shortest one. -/
def varint (k n : Nat) : Bytes :=
  UInt8.ofNat (k * 64 + n / 256 ^ (2 ^ k - 1)) :: beBytes (2 ^ k - 1) n

def Var (n : Nat) (bytes : Bytes) : Prop :=
  ∃ k < 4, n < 64 * 256 ^ (2 ^ k - 1) ∧ bytes = varint k n

def Vars : List Nat → Bytes → Prop
  | [], bytes => bytes = []
  | n :: ns, bytes => ∃ v rest, Var n v ∧ Vars ns rest ∧ bytes = v ++ rest

theorem shift_or_byte {a b : Nat} (hb : b < 256) :
    (a <<< 8) ||| b = a * 256 + b := by
  have hor := Nat.two_pow_add_eq_or_of_lt (i := 8) hb a
  rw [Nat.shiftLeft_eq, Nat.mul_comm, ← hor, Nat.mul_comm]

theorem more_beBytes (w a n : Nat) (r : Bytes) :
    more w a (beBytes w n ++ r) = some (a * 256 ^ w + n % 256 ^ w, r) := by
  induction w generalizing a with
  | zero => simp [more, beBytes, Nat.mod_one]
  | succ w ih =>
    have hb : (UInt8.ofNat (n / 256 ^ w)).toNat = n / 256 ^ w % 256 := by
      simp
    have hsplit : n % 256 ^ (w + 1) =
        n / 256 ^ w % 256 * 256 ^ w + n % 256 ^ w := by
      rw [Nat.pow_succ, Nat.mod_mul, Nat.add_comm, Nat.mul_comm]
    rw [beBytes_succ_front, List.cons_append, more]
    simp only [byte, Option.bind_eq_bind, Option.bind_some, hb]
    rw [shift_or_byte (Nat.mod_lt _ (by omega)), ih, hsplit]
    congr 2
    rw [Nat.add_mul, Nat.pow_succ', Nat.mul_assoc, Nat.add_assoc]

variable {n : Nat} {v : Bytes}

theorem var_append {r : Bytes} (h : Var n v) :
    var (v ++ r) = some (n, r) := by
  obtain ⟨k, hk, hn, rfl⟩ := h
  have hq : n / 256 ^ (2 ^ k - 1) < 64 :=
    Nat.div_lt_of_lt_mul (by rwa [Nat.mul_comm])
  have hprefix : ∀ q < 64, (UInt8.ofNat (k * 64 + q)).toNat = k * 64 + q ∧
      (k * 64 + q) >>> 6 = k ∧ (k * 64 + q) &&& 63 = q := by
    intro q hq
    refine ⟨?_, ?_, ?_⟩
    · simp only [UInt8.toNat_ofNat']
      omega
    · rw [Nat.shiftRight_eq_div_pow]
      omega
    · rw [Nat.and_two_pow_sub_one_eq_mod _ 6]
      omega
  obtain ⟨hfirst, hform, hlow⟩ := hprefix _ hq
  unfold varint var
  rw [List.cons_append]
  simp only [byte, Option.bind_eq_bind, Option.bind_some, hfirst, hform, hlow,
    Nat.one_shiftLeft, more_beBytes]
  congr 2
  exact Nat.div_add_mod' n _

theorem skip_append {ns : List Nat} {r : Bytes} (h : Vars ns v) :
    skip ns.length (v ++ r) = some r := by
  induction ns generalizing v with
  | nil =>
    cases h
    rfl
  | cons n ns ih =>
    obtain ⟨v, rest, hv, hrest, rfl⟩ := h
    rw [List.append_assoc, List.length_cons, skip, var_append hv]
    exact ih hrest

theorem take_append (data r : Bytes) :
    take data.length (data ++ r) = some (data, r) := by
  simp [take]

theorem Vars.split {ms ns : List Nat} (h : Vars (ms ++ ns) v) :
    ∃ a b, Vars ms a ∧ Vars ns b ∧ v = a ++ b := by
  induction ms generalizing v with
  | nil => exact ⟨[], v, rfl, h, rfl⟩
  | cons m ms ih =>
    obtain ⟨a, rest, ha, hrest, rfl⟩ := h
    obtain ⟨b, c, hb, hc, rfl⟩ := ih hrest
    exact ⟨a ++ b, c, ⟨a, b, ha, hb, rfl⟩, hc, (List.append_assoc ..).symm⟩

/-! ## Frames on the wire -/

inductive InitialFrame where
  | padding
  | ping
  | ack (largest delay first : Nat) (ranges : List (Nat × Nat))
      (ecn : Option (Nat × Nat × Nat))
  | crypto (offset : Nat) (data : Bytes)
  deriving DecidableEq, Repr

def ecnCounts : Option (Nat × Nat × Nat) → List Nat
  | none => []
  | some (a, b, c) => [a, b, c]

def InitialFrame.numbers : InitialFrame → List Nat
  | .padding => [0]
  | .ping => [1]
  | .ack largest delay first ranges ecn =>
    [if ecn.isSome then 3 else 2] ++ ([largest, delay] ++ ([ranges.length] ++
      ((first :: ranges.flatMap fun r => [r.1, r.2]) ++ ecnCounts ecn)))
  | .crypto offset data => [6, offset, data.length]

def InitialFrame.data : InitialFrame → Bytes
  | .crypto _ data => data
  | _ => []

def InitialFrame.Encodes (f : InitialFrame) (bytes : Bytes) : Prop :=
  ∃ v, Vars f.numbers v ∧ bytes = v ++ f.data

def Payload : List InitialFrame → Bytes → Prop
  | [], bytes => bytes = []
  | f :: fs, bytes => ∃ b rest, f.Encodes b ∧ Payload fs rest ∧ bytes = b ++ rest

def InitialFrame.Of (text : Bytes) : InitialFrame → Prop
  | .ack _ _ _ ranges _ => ranges.length ≤ 256
  | .crypto offset data =>
    offset + data.length ≤ text.length ∧ data = (text.drop offset).take data.length
  | _ => True

def InitialFrame.parsed : InitialFrame → Frame
  | .crypto offset data => .crypto offset data
  | _ => .ignored

theorem flatMap_pairs_length (ranges : List (Nat × Nat)) :
    (ranges.flatMap fun r => [r.1, r.2]).length = 2 * ranges.length := by
  induction ranges with
  | nil => rfl
  | cons r rs ih =>
    simp only [List.flatMap_cons, List.length_append, List.length_cons,
      List.length_nil, ih]
    omega

theorem ack_append {largest delay first : Nat} {ranges : List (Nat × Nat)}
    {ecn : Option (Nat × Nat × Nat)} {v r : Bytes}
    (hranges : ranges.length ≤ 256)
    (h : Vars ([largest, delay] ++ ([ranges.length] ++
      ((first :: ranges.flatMap fun r => [r.1, r.2]) ++ ecnCounts ecn))) v) :
    ack ecn.isSome (v ++ r) = .ok r := by
  obtain ⟨a, v, ha, hv, rfl⟩ := h.split
  obtain ⟨b, w, hb, hw, rfl⟩ := hv.split
  obtain ⟨c, d, hc, hd, rfl⟩ := hw.split
  obtain ⟨n, rest, hn, hrest, rfl⟩ := hb
  cases hrest
  have hskip : skip (1 + 2 * ranges.length) (c ++ (d ++ r)) = some (d ++ r) := by
    have hlen : (first :: ranges.flatMap fun r => [r.1, r.2]).length =
        1 + 2 * ranges.length := by
      rw [List.length_cons, flatMap_pairs_length]
      omega
    rw [← hlen]
    exact skip_append hc
  have hfirst : skip 2 (a ++ (n ++ (c ++ (d ++ r)))) = some (n ++ (c ++ (d ++ r))) :=
    skip_append ha
  simp only [ack, List.append_assoc, List.nil_append, hfirst, orErr,
    var_append hn, Except.bind, bind, hskip, if_neg (Nat.not_lt.mpr hranges)]
  cases ecn with
  | none =>
    cases hd
    rfl
  | some counts =>
    have hlast : skip 3 (d ++ r) = some r := skip_append hd
    simp [hlast]

theorem frame_append {text : Bytes} {f : InitialFrame} {bytes r : Bytes}
    (htext : text.length ≤ cryptoLimit) (h : f.Encodes bytes)
    (hof : f.Of text) : frame (bytes ++ r) = .ok (f.parsed, r) := by
  obtain ⟨v, hv, rfl⟩ := h
  cases f with
  | padding =>
    obtain ⟨a, rest, ha, hrest, rfl⟩ := hv
    cases hrest
    simp [frame, InitialFrame.data, var_append ha, orErr, bind, Except.bind,
      InitialFrame.parsed]
  | ping =>
    obtain ⟨a, rest, ha, hrest, rfl⟩ := hv
    cases hrest
    simp [frame, InitialFrame.data, var_append ha, orErr, bind, Except.bind,
      InitialFrame.parsed]
  | ack largest delay first ranges ecn =>
    obtain ⟨a, rest, ha, hrest, rfl⟩ := hv
    have hack := @ack_append largest delay first ranges ecn rest r hof hrest
    cases ecn with
    | none =>
      simp only [Option.isSome_none] at ha hack
      simp [frame, InitialFrame.data, List.append_assoc, var_append ha,
        orErr, bind, Except.bind, hack, Except.map, InitialFrame.parsed]
    | some counts =>
      simp only [Option.isSome_some] at ha hack
      simp [frame, InitialFrame.data, List.append_assoc, var_append ha,
        orErr, bind, Except.bind, hack, Except.map, InitialFrame.parsed]
  | crypto offset data =>
    obtain ⟨hbound, -⟩ := hof
    obtain ⟨a, rest, ha, ⟨b, rest, hb, ⟨c, rest, hc, hrest, rfl⟩, rfl⟩,
      rfl⟩ := hv
    cases hrest
    have hlimit : ¬ (cryptoLimit < offset ∨
        cryptoLimit - offset < data.length) := by omega
    simp only [frame, InitialFrame.data, List.append_assoc, List.nil_append,
      var_append ha, orErr, bind, Except.bind, cryptoFrame, var_append hb,
      var_append hc, if_neg hlimit, take_append, InitialFrame.parsed]

/-! ## Collected bytes -/

def Initial.has (c : Initial) (i : Nat) : Bool := c.present.getD i false

def Initial.byteAt (c : Initial) (i : Nat) : UInt8 := c.crypto.getD i 0

def Initial.Aligned (c : Initial) : Prop := c.crypto.length = c.present.length

def Covers (offset : Nat) (data : Bytes) (i : Nat) : Prop :=
  offset ≤ i ∧ i < offset + data.length

def Initial.Took (c : Initial) (offset : Nat) (data : Bytes) : Prop :=
  ∀ j, (h : j < data.length) →
    c.has (offset + j) = true ∧ c.byteAt (offset + j) = data[j]

theorem getD_set {α : Type} (xs : List α) (i j : Nat) (a d : α)
    (hi : i < xs.length) :
    (xs.set i a).getD j d = if j = i then a else xs.getD j d := by
  rw [List.getD_eq_getElem?_getD, List.getD_eq_getElem?_getD, List.getElem?_set]
  by_cases hij : i = j
  · subst hij
    simp [hi]
  · simp [hij, eq_comm]

theorem getD_resize {α : Type} (xs : List α) (len i : Nat) (d : α)
    (hlen : xs.length ≤ len) : (resize xs len d).getD i d = xs.getD i d := by
  rw [resize, List.take_of_length_le hlen, List.getD_eq_getElem?_getD,
    List.getD_eq_getElem?_getD, List.getElem?_append]
  split
  · rfl
  · rename_i hi
    rw [List.getElem?_eq_none (Nat.not_lt.mp hi), List.getElem?_replicate]
    split <;> rfl

theorem length_resize {α : Type} (xs : List α) (len : Nat) (d : α)
    (hlen : xs.length ≤ len) : (resize xs len d).length = len := by
  simp only [resize, List.length_append, List.length_take, List.length_replicate]
  omega

structure Placed (c : Initial) (offset : Nat) (data : Bytes) (c' : Initial) :
    Prop where
  done : c'.done = c.done
  aligned : c'.Aligned
  kept : ∀ i, c.has i = true → c'.has i = true ∧ c'.byteAt i = c.byteAt i
  took : c'.Took offset data
  only : ∀ i, c'.has i = true → c.has i = true ∨ Covers offset data i

variable {c c' : Initial} {offset : Nat}

theorem placed_place {data : Bytes}
    (haligned : c.Aligned) (hroom : offset + data.length ≤ c.crypto.length)
    (h : place c offset data = some c') : Placed c offset data c' := by
  induction data generalizing c offset with
  | nil =>
    cases h
    exact ⟨rfl, haligned, fun _ hi => ⟨hi, rfl⟩,
      fun _ hj => absurd hj (Nat.not_lt_zero _), fun _ hi => Or.inl hi⟩
  | cons b data ih =>
    rw [List.length_cons] at hroom
    rw [place] at h
    split at h
    · cases h
    rename_i hfree
    generalize hnext : ({ c with
      crypto := c.crypto.set offset b
      present := c.present.set offset true } : Initial) = next at h
    have hcrypto : offset < c.crypto.length := by omega
    have hpresent : offset < c.present.length := haligned ▸ hcrypto
    have hhas : ∀ i, next.has i = if i = offset then true else c.has i :=
      fun i => by rw [← hnext]; exact getD_set _ _ _ _ _ hpresent
    have hbyte : ∀ i, next.byteAt i = if i = offset then b else c.byteAt i :=
      fun i => by rw [← hnext]; exact getD_set _ _ _ _ _ hcrypto
    have hnextAligned : next.Aligned := by
      rw [← hnext]
      simpa [Initial.Aligned] using haligned
    have hplaced := ih hnextAligned (by rw [← hnext, List.length_set]; omega) h
    have hfirst := hplaced.kept offset (by simp [hhas])
    refine ⟨hplaced.done.trans (by rw [← hnext]), hplaced.aligned, ?_, ?_, ?_⟩
    · intro i hi
      have hsame : next.byteAt i = c.byteAt i := by
        rw [hbyte]
        split
        · rename_i heq
          subst heq
          simp only [not_and, not_not] at hfree
          exact (hfree hi).symm
        · rfl
      obtain ⟨hpres, hval⟩ := hplaced.kept i (by simp [hhas, hi])
      exact ⟨hpres, hval.trans hsame⟩
    · intro j hj
      cases j with
      | zero => exact ⟨hfirst.1, hfirst.2.trans (by simp [hbyte])⟩
      | succ j =>
        have htook := hplaced.took j (by simpa using hj)
        simpa only [List.getElem_cons_succ, Nat.add_assoc, Nat.add_comm 1 j]
          using htook
    · intro i hi
      rcases hplaced.only i hi with hnow | hcovers
      · rw [hhas] at hnow
        split at hnow
        · exact Or.inr ⟨by omega, by rw [List.length_cons]; omega⟩
        · exact Or.inl hnow
      · refine Or.inr ⟨by have := hcovers.1; omega, ?_⟩
        have := hcovers.2
        rw [List.length_cons]
        omega

theorem place_agrees {data : Bytes}
    (hroom : offset + data.length ≤ c.crypto.length)
    (h : ∀ j, (hj : j < data.length) → c.has (offset + j) = true →
      c.byteAt (offset + j) = data[j]) :
    ∃ c', place c offset data = some c' := by
  induction data generalizing c offset with
  | nil => exact ⟨c, rfl⟩
  | cons b data ih =>
    rw [List.length_cons] at hroom
    have hfirst := h 0 (by simp)
    rw [place, if_neg (by simpa [Initial.has, Initial.byteAt] using hfirst)]
    refine ih (by rw [List.length_set]; omega) ?_
    intro j hj hpres
    have hne : offset + 1 + j ≠ offset := by omega
    have hset : ∀ {α : Type} (xs : List α) (a d : α),
        (xs.set offset a).getD (offset + 1 + j) d = xs.getD (offset + 1 + j) d := by
      intro α xs a d
      rw [List.getD_eq_getElem?_getD, List.getD_eq_getElem?_getD,
        List.getElem?_set_ne hne.symm]
    simp only [Initial.has, Initial.byteAt, hset] at hpres ⊢
    have hnext := h (j + 1) (by simpa using hj)
    simp only [Initial.has, Initial.byteAt, List.getElem_cons_succ,
      show offset + (j + 1) = offset + 1 + j by omega] at hnext
    exact hnext hpres

theorem placed_crypto {data : Bytes}
    (haligned : c.Aligned) (h : crypto c offset data = some c') :
    Placed c offset data c' := by
  unfold crypto at h
  generalize hsize : max c.crypto.length (offset + data.length) = size at h
  have hcrypto : c.crypto.length ≤ size := by omega
  have hpresent : c.present.length ≤ size := haligned ▸ hcrypto
  have hplaced := placed_place
    (by simp only [Initial.Aligned, length_resize _ _ _ hcrypto,
      length_resize _ _ _ hpresent])
    (by simp only [length_resize _ _ _ hcrypto]; omega) h
  have hhas : ∀ i, Initial.has { c with
      crypto := resize c.crypto size 0
      present := resize c.present size false } i = c.has i :=
    fun i => getD_resize _ _ _ _ hpresent
  have hbyte : ∀ i, Initial.byteAt { c with
      crypto := resize c.crypto size 0
      present := resize c.present size false } i = c.byteAt i :=
    fun i => getD_resize _ _ _ _ hcrypto
  refine ⟨hplaced.done, hplaced.aligned, ?_, hplaced.took, ?_⟩
  · intro i hi
    rw [← hbyte i]
    exact hplaced.kept i (by rw [hhas, hi])
  · intro i hi
    rw [← hhas i]
    exact hplaced.only i hi

theorem crypto_agrees {c : Initial} {offset : Nat} {data : Bytes}
    (haligned : c.Aligned)
    (h : ∀ j, (hj : j < data.length) → c.has (offset + j) = true →
      c.byteAt (offset + j) = data[j]) :
    ∃ c', crypto c offset data = some c' := by
  have hcrypto : c.crypto.length ≤
      max c.crypto.length (offset + data.length) := by omega
  refine place_agrees ?_ ?_
  · rw [length_resize _ _ _ hcrypto]
    omega
  · intro j hj hpres
    rw [Initial.has, getD_resize _ _ _ _ (haligned ▸ hcrypto)] at hpres
    rw [Initial.byteAt, getD_resize _ _ _ _ hcrypto]
    exact h j hj hpres

/-! ## Payloads -/

def fragmentsFrom : Nat → Bytes → List (Nat × Bytes)
  | 0, _ => []
  | _ + 1, [] => []
  | fuel + 1, r =>
    match frame r with
    | .ok (.ignored, r) => fragmentsFrom fuel r
    | .ok (.crypto offset bytes, r) => (offset, bytes) :: fragmentsFrom fuel r
    | _ => []

def fragments (plain : Bytes) : List (Nat × Bytes) :=
  fragmentsFrom plain.length plain

structure Absorbed (c : Initial) (fs : List (Nat × Bytes)) (c' : Initial) :
    Prop where
  done : c'.done = c.done
  aligned : c'.Aligned
  kept : ∀ i, c.has i = true → c'.has i = true ∧ c'.byteAt i = c.byteAt i
  took : ∀ f ∈ fs, c'.Took f.1 f.2
  only : ∀ i, c'.has i = true → c.has i = true ∨ ∃ f ∈ fs, Covers f.1 f.2 i

theorem Initial.Took.mono {data : Bytes} (h : c.Took offset data)
    (hkept : ∀ i, c.has i = true → c'.has i = true ∧ c'.byteAt i = c.byteAt i) :
    c'.Took offset data := by
  intro j hj
  obtain ⟨hpres, hval⟩ := h j hj
  obtain ⟨hpres', hval'⟩ := hkept _ hpres
  exact ⟨hpres', hval'.trans hval⟩

theorem Absorbed.refl (h : c.Aligned) : Absorbed c [] c :=
  ⟨rfl, h, fun _ hi => ⟨hi, rfl⟩, by simp, fun _ hi => Or.inl hi⟩

theorem Placed.absorbed {c'' : Initial} {data : Bytes}
    {fs : List (Nat × Bytes)} (h : Placed c offset data c')
    (hfs : Absorbed c' fs c'') : Absorbed c ((offset, data) :: fs) c'' := by
  refine ⟨hfs.done.trans h.done, hfs.aligned, ?_, ?_, ?_⟩
  · intro i hi
    obtain ⟨hpres, hval⟩ := h.kept i hi
    obtain ⟨hpres', hval'⟩ := hfs.kept i hpres
    exact ⟨hpres', hval'.trans hval⟩
  · intro f hf
    rcases List.mem_cons.mp hf with rfl | hf
    · exact h.took.mono hfs.kept
    · exact hfs.took f hf
  · intro i hi
    rcases hfs.only i hi with hmid | ⟨f, hf, hcovers⟩
    · rcases h.only i hmid with hold | hcovers
      · exact Or.inl hold
      · exact Or.inr ⟨_, List.mem_cons_self, hcovers⟩
    · exact Or.inr ⟨f, List.mem_cons_of_mem _ hf, hcovers⟩

theorem absorbed_framesFrom {fuel : Nat} {r : Bytes} {closed : Bool}
    (haligned : c.Aligned) (h : framesFrom fuel c r = .ok (c', closed)) :
    Absorbed c (fragmentsFrom fuel r) c' := by
  induction fuel generalizing c r with
  | zero =>
    cases h
    exact .refl haligned
  | succ fuel ih =>
    cases r with
    | nil =>
      cases h
      exact .refl haligned
    | cons b r =>
      rw [framesFrom] at h
      · rw [fragmentsFrom]
        · cases hframe : frame (b :: r) with
          | error text => simp [hframe] at h
          | ok parsed =>
            obtain ⟨parsed, rest⟩ := parsed
            cases parsed with
            | ignored =>
              simp only [hframe] at h ⊢
              exact ih haligned h
            | close =>
              simp only [hframe, Except.ok.injEq, Prod.mk.injEq] at h ⊢
              exact h.1 ▸ .refl haligned
            | crypto offset bytes =>
              simp only [hframe] at h ⊢
              cases hcrypto : crypto c offset bytes with
              | none => simp [hcrypto] at h
              | some next =>
                simp only [hcrypto] at h
                have hplaced := placed_crypto haligned hcrypto
                exact hplaced.absorbed (ih hplaced.aligned h)
        · simp
      · simp

/-! ## Parts of one text -/

def Initial.Agrees (text : Bytes) (c : Initial) : Prop :=
  ∀ i, c.has i = true → i < text.length ∧ c.byteAt i = text.getD i 0

def InitialFrame.Carries (f : InitialFrame) (i : Nat) : Prop :=
  match f with
  | .crypto offset data => Covers offset data i
  | _ => False

theorem Var.ne_nil (h : Var n v) : v ≠ [] := by
  obtain ⟨k, -, -, rfl⟩ := h
  simp [varint]

theorem InitialFrame.Encodes.ne_nil {f : InitialFrame} {bytes : Bytes}
    (h : f.Encodes bytes) : bytes ≠ [] := by
  obtain ⟨v, hv, rfl⟩ := h
  cases f <;> obtain ⟨a, rest, ha, -, rfl⟩ := hv <;> simp [ha.ne_nil]

variable {text : Bytes}

theorem getElem_of_part {data : Bytes} {j : Nat}
    (hpart : data = (text.drop offset).take data.length)
    (hj : j < data.length) : data[j] = text.getD (offset + j) 0 := by
  have hget : data[j]? = text[offset + j]? := by
    conv_lhs => rw [hpart]
    rw [List.getElem?_take_of_lt hj, List.getElem?_drop]
  rw [List.getD_eq_getElem?_getD, ← hget, List.getElem?_eq_getElem hj]
  rfl

variable {fs : List InitialFrame}

theorem framesFrom_of_text {fuel : Nat} {bytes : Bytes}
    (htext : text.length ≤ cryptoLimit) (haligned : c.Aligned)
    (hagrees : c.Agrees text) (hpayload : Payload fs bytes)
    (hof : ∀ f ∈ fs, f.Of text) (hfuel : bytes.length ≤ fuel) :
    ∃ c', framesFrom fuel c bytes = .ok (c', false) ∧ c'.done = c.done ∧
      c'.Aligned ∧ c'.Agrees text ∧
      ∀ i, c'.has i = true ↔ c.has i = true ∨ ∃ f ∈ fs, f.Carries i := by
  induction fs generalizing fuel c bytes with
  | nil =>
    cases hpayload
    refine ⟨c, ?_, rfl, haligned, hagrees, by simp⟩
    cases fuel <;> rfl
  | cons f fs ih =>
    obtain ⟨b, rest, hb, hrest, rfl⟩ := hpayload
    have hread := @frame_append text f b rest htext hb (hof f List.mem_cons_self)
    have hof' : ∀ g ∈ fs, g.Of text := fun g hg =>
      hof g (List.mem_cons_of_mem _ hg)
    rw [List.length_append] at hfuel
    have hpos := List.length_pos_iff.mpr hb.ne_nil
    obtain ⟨fuel, rfl⟩ : ∃ n, fuel = n + 1 := ⟨fuel - 1, by omega⟩
    have hfuel' : rest.length ≤ fuel := by omega
    obtain ⟨x, tail, hcons⟩ := List.exists_cons_of_ne_nil
      (List.append_ne_nil_of_left_ne_nil hb.ne_nil rest)
    rw [hcons] at hread ⊢
    simp only [framesFrom, hread]
    cases f with
    | crypto offset data =>
      obtain ⟨hbound, hpart⟩ := hof _ List.mem_cons_self
      simp only [InitialFrame.parsed]
      obtain ⟨c', hc'⟩ := @crypto_agrees c offset data haligned (by
        intro j hj hpres
        rw [(hagrees _ hpres).2, getElem_of_part hpart hj])
      have hplaced := placed_crypto haligned hc'
      have hagrees' : c'.Agrees text := by
        intro i hi
        rcases hplaced.only i hi with hold | ⟨hge, hlt⟩
        · rw [(hplaced.kept i hold).2]
          exact hagrees i hold
        · have hj : i - offset < data.length := by omega
          have htook := hplaced.took (i - offset) hj
          rw [Nat.add_sub_cancel' hge] at htook
          refine ⟨by omega, htook.2.trans ?_⟩
          rw [getElem_of_part hpart hj, Nat.add_sub_cancel' hge]
      obtain ⟨c'', hok, hdone, haligned'', hagrees'', hhas⟩ :=
        ih hplaced.aligned hagrees' hrest hof' hfuel'
      simp only [hc']
      refine ⟨c'', hok, hdone.trans hplaced.done, haligned'', hagrees'', ?_⟩
      intro i
      have hmid : c'.has i = true ↔ c.has i = true ∨ Covers offset data i := by
        refine ⟨hplaced.only i, ?_⟩
        rintro (hold | ⟨hge, hlt⟩)
        · exact (hplaced.kept i hold).1
        · have htook := hplaced.took (i - offset) (by omega)
          rw [Nat.add_sub_cancel' hge] at htook
          exact htook.1
      rw [hhas, hmid, List.exists_mem_cons_iff, or_assoc]
      rfl
    | _ =>
      simp only [InitialFrame.parsed]
      obtain ⟨c', hok, hdone, haligned', hagrees', hhas⟩ :=
        ih haligned hagrees hrest hof' hfuel'
      refine ⟨c', hok, hdone, haligned', hagrees', ?_⟩
      intro i
      rw [hhas, List.exists_mem_cons_iff]
      simp [InitialFrame.Carries]

/-! ## The collected ClientHello -/

theorem le_contiguous_iff {present : List Bool} :
    n ≤ contiguous present ↔ ∀ i < n, present.getD i false = true := by
  induction present generalizing n with
  | nil =>
    cases n with
    | zero => simp
    | succ n => simpa [contiguous] using ⟨0, by omega⟩
  | cons b present ih =>
    cases n with
    | zero => simp
    | succ n =>
      cases b with
      | false => simpa [contiguous] using ⟨0, by omega, by simp⟩
      | true =>
        have hlen : contiguous (true :: present) =
            contiguous present + 1 := by simp [contiguous]
        rw [hlen, Nat.add_le_add_iff_right, ih]
        constructor
        · intro h i hi
          cases i with
          | zero => rfl
          | succ i => simpa using h i (by omega)
        · intro h i hi
          simpa using h (i + 1) (by omega)

structure ClientHello (text : Bytes) (h : Hello) : Prop where
  size : text.length ≤ cryptoLimit
  text : ∃ body, text = 1 :: (beBytes 3 body.length ++ body) ∧ hello body = some h

theorem lt_length_of_has (haligned : c.Aligned) {i : Nat}
    (h : c.has i = true) : i < c.crypto.length := by
  rw [haligned]
  by_contra hle
  rw [Initial.has, List.getD_eq_getElem?_getD,
    List.getElem?_eq_none (Nat.not_lt.mp hle)] at h
  cases h

theorem take_of_agrees
    (haligned : c.Aligned) (hagrees : c.Agrees text)
    (h : ∀ i < n, c.has i = true) : c.crypto.take n = text.take n := by
  apply List.ext_getElem?
  intro i
  by_cases hi : i < n
  · obtain ⟨hlt, hval⟩ := hagrees i (h i hi)
    have hlen := lt_length_of_has haligned (h i hi)
    rw [List.getElem?_take_of_lt hi, List.getElem?_take_of_lt hi]
    rw [Initial.byteAt, List.getD_eq_getElem?_getD,
      List.getD_eq_getElem?_getD, List.getElem?_eq_getElem hlen,
      List.getElem?_eq_getElem hlt] at hval
    rw [List.getElem?_eq_getElem hlen, List.getElem?_eq_getElem hlt]
    exact congrArg some hval
  · rw [List.getElem?_take_eq_none (Nat.not_lt.mp hi),
      List.getElem?_take_eq_none (Nat.not_lt.mp hi)]

theorem clientHello_length {body : Bytes}
    (htext : text = 1 :: (beBytes 3 body.length ++ body)) :
    text.length = body.length + 4 := by
  simp only [htext, List.length_cons, List.length_append, beBytes_length]
  omega

variable {h : Hello}

/-- The collected bytes give the parsed ClientHello when they are all there,
and nothing before. -/
theorem analyse_of_agrees (hclient : ClientHello text h) (haligned : c.Aligned)
    (hagrees : c.Agrees text) :
    ((∀ i < text.length, c.has i = true) ∧
        analyse c = .ok (⟨[], [], true⟩, some h)) ∨
      (¬ (∀ i < text.length, c.has i = true) ∧ analyse c = .ok (c, none)) := by
  obtain ⟨hsize, body, htext, hbody⟩ := hclient
  have hlen := clientHello_length htext
  unfold analyse
  by_cases hfour : contiguous c.present < 4
  · refine Or.inr ⟨fun hall => ?_, by simp [hfour]⟩
    have hle : 4 ≤ contiguous c.present :=
      le_contiguous_iff.mpr fun i hi => hall i (by omega)
    omega
  have hfirst : c.crypto.take 4 = text.take 4 :=
    take_of_agrees haligned hagrees
      fun i hi => le_contiguous_iff.mp (Nat.not_lt.mp hfour) i hi
  have hnumber : beNat ((c.crypto.drop 1).take 3) = body.length := by
    have hdrop : (c.crypto.drop 1).take 3 = beBytes 3 body.length := by
      calc (c.crypto.drop 1).take 3 = (c.crypto.take 4).drop 1 := by
            rw [List.drop_take]
        _ = (text.take 4).drop 1 := by rw [hfirst]
        _ = (text.drop 1).take 3 := by rw [List.drop_take]
        _ = beBytes 3 body.length := by
            rw [htext, List.drop_one, List.tail_cons,
              List.take_append_of_le_length (by simp)]
            exact List.take_of_length_le (by simp)
    rw [hdrop, beNat_beBytes, Nat.mod_eq_of_lt]
    simp only [cryptoLimit] at hsize
    omega
  simp only [hnumber, if_neg hfour,
    if_neg (show ¬ cryptoLimit < body.length + 4 by omega)]
  by_cases hpart : contiguous c.present < body.length + 4
  · refine Or.inr ⟨fun hall => ?_, by simp [hpart]⟩
    have hle : body.length + 4 ≤ contiguous c.present :=
      le_contiguous_iff.mpr fun i hi => hall i (by omega)
    omega
  · have hall : ∀ i < text.length, c.has i = true := fun i hi =>
      le_contiguous_iff.mp (Nat.not_lt.mp hpart) i (by omega)
    refine Or.inl ⟨hall, ?_⟩
    have htake : c.crypto.take text.length = text := by
      rw [take_of_agrees haligned hagrees hall, List.take_length]
    have hhead : c.crypto.head? = some 1 := by
      have : (c.crypto.take text.length).head? = some 1 := by
        rw [htake, htext, List.head?_cons]
      rwa [List.head?_take, if_neg (by omega)] at this
    have hrest : (c.crypto.drop 4).take body.length = body := by
      calc (c.crypto.drop 4).take body.length
          = (c.crypto.take text.length).drop 4 := by
            rw [List.drop_take, hlen, Nat.add_sub_cancel]
        _ = text.drop 4 := by rw [htake]
        _ = body := by
            rw [htext, List.drop_succ_cons, List.drop_left' (beBytes_length 3 _)]
    simp [hpart, hhead, hrest, hbody]

/-! ## Packets -/

/-- Where the probe stands after the frames: the hello is there once the frames
carry all of the text. -/
def Reading (text : Bytes) (h : Hello) (fs : List InitialFrame) (p : Probe) :
    Prop :=
  ((∀ i < text.length, ∃ f ∈ fs, f.Carries i) ∧ p.hello = some h ∧
      p.context.done = true) ∨
    (¬ (∀ i < text.length, ∃ f ∈ fs, f.Carries i) ∧ p.hello = none ∧
      p.context.done = false ∧ p.context.Aligned ∧ p.context.Agrees text ∧
      ∀ i, p.context.has i = true ↔ ∃ f ∈ fs, f.Carries i)

variable {p : Probe}

theorem reading_payload {more : List InitialFrame} {plain : Bytes}
    (hclient : ClientHello text h) (hp : Reading text h fs p)
    (hplain : Payload more plain) (hof : ∀ f ∈ more, f.Of text) :
    Reading text h (fs ++ more) (payload p plain) := by
  rcases hp with ⟨hall, hhello, hdone⟩ |
    ⟨hpart, hhello, hdone, haligned, hagrees, hhas⟩
  · simp only [payload, hdone, if_true]
    refine Or.inl ⟨fun i hi => ?_, hhello, hdone⟩
    obtain ⟨f, hf, hcarries⟩ := hall i hi
    exact ⟨f, List.mem_append_left _ hf, hcarries⟩
  · obtain ⟨c, hok, hdone', haligned', hagrees', hhas'⟩ :=
      framesFrom_of_text hclient.size haligned hagrees hplain hof (Nat.le_refl _)
    have hcarried : ∀ i, c.has i = true ↔ ∃ f ∈ fs ++ more, f.Carries i := by
      intro i
      rw [hhas', hhas]
      simp only [List.mem_append, or_and_right, exists_or]
    simp only [payload, hdone, frames, hok]
    rcases analyse_of_agrees hclient haligned' hagrees' with
      ⟨hall, hanalyse⟩ | ⟨hpart', hanalyse⟩
    · simp only [hanalyse]
      exact Or.inl ⟨fun i hi => (hcarried i).mp (hall i hi), rfl, rfl⟩
    · simp only [hanalyse]
      refine Or.inr ⟨fun hall => hpart' fun i hi => ?_, hhello,
        hdone'.trans hdone, haligned', hagrees', hcarried⟩
      exact (hcarried i).mpr (hall i hi)

variable {plains : List Bytes}

theorem reading_packets {more : List (List InitialFrame)}
    (hclient : ClientHello text h) (hp : Reading text h fs p)
    (hplains : List.Forall₂ Payload more plains)
    (hof : ∀ fs ∈ more, ∀ f ∈ fs, f.Of text)
    (hroom : p.attempts + plains.length ≤ 128) :
    Reading text h (fs ++ more.flatten) (packets p (plains.map some)) ∧
      (packets p (plains.map some)).attempts = p.attempts + plains.length := by
  induction hplains generalizing fs p with
  | nil => exact ⟨by simpa [packets] using hp, rfl⟩
  | @cons fs' plain more plains hplain _ ih =>
    rw [List.length_cons] at hroom
    simp only [List.map_cons, packets, if_neg
      (show ¬ 128 < p.attempts + 1 by omega)]
    have hp' : Reading text h fs { p with attempts := p.attempts + 1 } := hp
    have hstep := reading_payload hclient hp' hplain (hof _ List.mem_cons_self)
    have hattempts : (payload { p with attempts := p.attempts + 1 }
        plain).attempts = p.attempts + 1 := by
      simp only [payload]
      split
      · rfl
      · split <;> rfl
    obtain ⟨hread, hcount⟩ := ih hstep
      (fun fs hfs => hof fs (List.mem_cons_of_mem _ hfs)) (by omega)
    refine ⟨by simpa using hread, ?_⟩
    rw [hcount, hattempts, List.length_cons]
    omega

theorem reading_run {more : List (List (List InitialFrame))}
    {plains : List (List Bytes)} (hclient : ClientHello text h)
    (hp : Reading text h fs p)
    (hplains : List.Forall₂ (List.Forall₂ Payload) more plains)
    (hof : ∀ fs ∈ more.flatten, ∀ f ∈ fs, f.Of text)
    (hsize : ∀ d ∈ more, d.length ≤ 16)
    (hroom : p.attempts + more.flatten.length ≤ 128) :
    Reading text h (fs ++ more.flatten.flatten)
      (run feed p (plains.map fun d => d.map some)) := by
  induction hplains generalizing fs p with
  | nil => simpa using hp
  | @cons d plain more plains hplain _ ih =>
    rw [List.flatten_cons, List.length_append] at hroom
    have hlen : plain.length = d.length := hplain.length_eq.symm
    have htake : (plain.map some).take 16 = plain.map some :=
      List.take_of_length_le (by
        rw [List.length_map, hlen]
        exact hsize d List.mem_cons_self)
    have hstep : Reading text h (fs ++ d.flatten) (feed p (plain.map some)) ∧
        (feed p (plain.map some)).attempts + more.flatten.length ≤ 128 := by
      unfold feed
      split
      · have hd : d = [] := List.length_eq_zero_iff.mp (by omega)
        subst hd
        rw [List.flatten_nil, List.append_nil]
        split
        · exact ⟨hp, by simpa using hroom⟩
        · exact ⟨hp, by simpa using hroom⟩
      · rw [htake]
        obtain ⟨hread, hcount⟩ := reading_packets hclient hp hplain
          (fun fs hfs => hof fs (by simp [hfs])) (by omega)
        exact ⟨hread, by omega⟩
    have hrest := ih hstep.1 (fun fs hfs => hof fs (by simp [hfs]))
      (fun d hd => hsize d (List.mem_cons_of_mem _ hd)) hstep.2
    simpa using hrest

/-! ## Fragments that disagree -/

def examinedPackets (p : Probe) : List (Option Bytes) → List Bytes
  | [] => []
  | packet :: rest =>
    let p := { p with attempts := p.attempts + 1 }
    if 128 < p.attempts then []
    else
      match packet with
      | none => examinedPackets p rest
      | some plain =>
        (if p.context.done then [] else [plain]) ++
          examinedPackets (payload p plain) rest

/-- The payloads whose frames the probe reads, up to the one that ends the
inspection. -/
def examined (p : Probe) : List (List (Option Bytes)) → List Bytes
  | [] => []
  | datagram :: rest =>
    (if 128 ≤ p.attempts then [] else examinedPackets p (datagram.take 16)) ++
      examined (feed p datagram) rest

/-- The hello is parsed from one text: every fragment agrees with it, and each
of its bytes is in a fragment. -/
def Built (plains : List Bytes) (h : Hello) : Prop :=
  ∃ (content : Nat → UInt8) (size : Nat),
    (∀ plain ∈ plains, ∀ f ∈ fragments plain, ∀ j, (hj : j < f.2.length) →
      content (f.1 + j) = f.2[j]) ∧
    (∀ i < size + 4, ∃ plain ∈ plains, ∃ f ∈ fragments plain, Covers f.1 f.2 i) ∧
    hello ((List.range size).map fun i => content (4 + i)) = some h

structure Collected (plains : List Bytes) (c : Initial) : Prop where
  done : c.done = false
  aligned : c.Aligned
  took : ∀ plain ∈ plains, ∀ f ∈ fragments plain, c.Took f.1 f.2
  only : ∀ i, c.has i = true → ∃ plain ∈ plains, ∃ f ∈ fragments plain,
    Covers f.1 f.2 i

def Tracked (plains : List Bytes) (p : Probe) : Prop :=
  (p.hello = none ∧ (p.context.done = true ∨ Collected plains p.context)) ∨
    ∃ h, p.hello = some h ∧ p.context.done = true ∧ Built plains h

theorem analyse_eq_ok {result : Option Hello} (h : analyse c = .ok (c', result)) :
    (result = none ∧ c' = c) ∨ ∃ hi size, result = some hi ∧
      c' = ⟨[], [], true⟩ ∧ size + 4 ≤ contiguous c.present ∧
      hello ((c.crypto.drop 4).take size) = some hi := by
  simp only [analyse] at h
  split at h
  · cases h
    exact Or.inl ⟨rfl, rfl⟩
  split at h
  · cases h
  split at h
  · cases h
    exact Or.inl ⟨rfl, rfl⟩
  rename_i hsize
  split at h
  · cases h
  split at h
  · cases h
  · rename_i hi hhello
    cases h
    exact Or.inr ⟨hi, _, rfl, rfl, Nat.not_lt.mp hsize, hhello⟩

theorem collected_framesFrom
    {plain : Bytes} {closed : Bool} (hc : Collected plains c)
    (h : framesFrom plain.length c plain = .ok (c', closed)) :
    Collected (plains ++ [plain]) c' := by
  have habsorbed := absorbed_framesFrom hc.aligned h
  refine ⟨habsorbed.done.trans hc.done, habsorbed.aligned, ?_, ?_⟩
  · intro q hq f hf
    rcases List.mem_append.mp hq with hq | hq
    · exact (hc.took q hq f hf).mono habsorbed.kept
    · rw [List.mem_singleton.mp hq] at hf
      exact habsorbed.took f hf
  · intro i hi
    rcases habsorbed.only i hi with hold | ⟨f, hf, hcovers⟩
    · obtain ⟨q, hq, hmore⟩ := hc.only i hold
      exact ⟨q, List.mem_append_left _ hq, hmore⟩
    · exact ⟨plain, by simp, f, hf, hcovers⟩

theorem built_of_collected {size : Nat} (hc : Collected plains c)
    (hsize : size + 4 ≤ contiguous c.present)
    (hhello : hello ((c.crypto.drop 4).take size) = some h) :
    Built plains h := by
  have hhas := le_contiguous_iff.mp hsize
  refine ⟨c.byteAt, size, ?_, ?_, ?_⟩
  · intro plain hplain f hf j hj
    exact (hc.took plain hplain f hf j hj).2
  · exact fun i hi => hc.only i (hhas i hi)
  · rw [← hhello]
    refine congrArg hello (List.ext_getElem? fun i => ?_)
    by_cases hi : i < size
    · have hlen := lt_length_of_has hc.aligned (hhas (4 + i) (by omega))
      simp [hi, Initial.byteAt, List.getD_eq_getElem?_getD, hlen]
    · rw [List.getElem?_eq_none (by simpa using hi),
        List.getElem?_take_eq_none (Nat.not_lt.mp hi)]

theorem tracked_payload (plain : Bytes) (hp : Tracked plains p) :
    Tracked (plains ++ if p.context.done then [] else [plain]) (payload p plain) := by
  simp only [payload]
  cases hdone : p.context.done with
  | true =>
    simp only [if_true, List.append_nil]
    rcases hp with ⟨hhello, -⟩ | ⟨h, hhello, -, hbuilt⟩
    · exact Or.inl ⟨hhello, Or.inl hdone⟩
    · exact Or.inr ⟨h, hhello, hdone, hbuilt⟩
  | false =>
    simp only [Bool.false_eq_true, if_false]
    rcases hp with ⟨hhello, hdone' | hc⟩ | ⟨h, -, hdone', -⟩
    · simp [hdone] at hdone'
    · unfold frames
      cases hframes : framesFrom plain.length p.context plain with
      | error note => exact Or.inl ⟨hhello, Or.inl rfl⟩
      | ok result =>
        obtain ⟨c, closed⟩ := result
        have hc' := collected_framesFrom hc hframes
        cases closed with
        | true => exact Or.inl ⟨hhello, Or.inr hc'⟩
        | false =>
          simp only
          cases hanalyse : analyse c with
          | error note => exact Or.inl ⟨hhello, Or.inl rfl⟩
          | ok result =>
            obtain ⟨c', result⟩ := result
            rcases analyse_eq_ok hanalyse with ⟨rfl, rfl⟩ |
              ⟨h, size, rfl, rfl, hsize, hparsed⟩
            · exact Or.inl ⟨hhello, Or.inr hc'⟩
            · exact Or.inr ⟨h, rfl, rfl, built_of_collected hc' hsize hparsed⟩
    · simp [hdone] at hdone'

theorem tracked_packets (ps : List (Option Bytes)) (hp : Tracked plains p) :
    Tracked (plains ++ examinedPackets p ps) (packets p ps) := by
  induction ps generalizing plains p with
  | nil => simpa [examinedPackets, packets] using hp
  | cons packet ps ih =>
    have hp' : Tracked plains { p with attempts := p.attempts + 1 } := hp
    simp only [examinedPackets, packets]
    split
    · simpa using hp'
    · cases packet with
      | none => exact ih hp'
      | some plain =>
        rw [← List.append_assoc]
        exact ih (tracked_payload plain hp')

theorem tracked_run
    (datagrams : List (List (Option Bytes))) (hp : Tracked plains p) :
    Tracked (plains ++ examined p datagrams) (run feed p datagrams) := by
  induction datagrams generalizing plains p with
  | nil => simpa [examined] using hp
  | cons d ds ih =>
    rw [examined, run_cons, ← List.append_assoc]
    refine ih ?_
    unfold feed
    split
    · rw [List.append_nil]
      split
      · exact hp
      · exact hp
    · exact tracked_packets _ hp

/-- Parts of a ClientHello in any order give the same hello, once they cover
it; and whatever arrives, a hello is parsed from one text that all the fragments
read so far agree with. -/
theorem hello_reassembled :
    (∀ (text : Bytes) (h : Hello)
      (datagrams : List (List (List InitialFrame)))
      (plains : List (List Bytes)), ClientHello text h →
      List.Forall₂ (List.Forall₂ Payload) datagrams plains →
      (∀ fs ∈ datagrams.flatten, ∀ f ∈ fs, f.Of text) →
      (∀ i < text.length, ∃ fs ∈ datagrams.flatten, ∃ f ∈ fs, f.Carries i) →
      (∀ d ∈ datagrams, d.length ≤ 16) → datagrams.flatten.length ≤ 128 →
      (run feed .new (plains.map fun d => d.map some)).hello = some h) ∧
    (∀ (datagrams : List (List (Option Bytes))) (h : Hello),
      (run feed .new datagrams).hello = some h →
      Built (examined .new datagrams) h) := by
  constructor
  · intro text h datagrams plains hclient hplains hof hcover hsize hroom
    have hstart : Reading text h [] .new := by
      refine Or.inr ⟨fun hall => ?_, rfl, rfl, rfl, ?_, ?_⟩
      · obtain ⟨body, htext, -⟩ := hclient.text
        have hlen := clientHello_length htext
        obtain ⟨f, hf, -⟩ := hall 0 (by omega)
        cases hf
      · exact fun i hi => by simp [Initial.has, Probe.new, Initial.new] at hi
      · simp [Initial.has, Probe.new, Initial.new]
    have hend := reading_run hclient hstart hplains hof hsize
      (by simpa [Probe.new] using hroom)
    rcases hend with ⟨-, hhello, -⟩ | ⟨hpart, -⟩
    · exact hhello
    · refine absurd (fun i hi => ?_) hpart
      obtain ⟨fs, hfs, f, hf, hcarries⟩ := hcover i hi
      exact ⟨f, by simpa using ⟨fs, by simpa using hfs, hf⟩, hcarries⟩
  · intro datagrams h hhello
    have hstart : Tracked [] .new :=
      Or.inl ⟨rfl, Or.inr ⟨rfl, rfl, by simp,
        fun i hi => by simp [Initial.has, Probe.new, Initial.new] at hi⟩⟩
    have hend := tracked_run datagrams hstart
    rw [List.nil_append] at hend
    rcases hend with ⟨hnone, -⟩ | ⟨h', hsome, -, hbuilt⟩
    · rw [hnone] at hhello
      cases hhello
    · rw [hsome] at hhello
      exact Option.some.inj hhello ▸ hbuilt

/-! ## Packets written out -/

def InitialFrame.encode (f : InitialFrame) : Bytes :=
  f.numbers.flatMap (varint 1) ++ f.data

def encodeAll (fs : List InitialFrame) : Bytes :=
  fs.flatMap InitialFrame.encode

def InitialFrame.Small (f : InitialFrame) : Prop := ∀ n ∈ f.numbers, n < 16384

instance (f : InitialFrame) : Decidable f.Small :=
  inferInstanceAs (Decidable (∀ n ∈ f.numbers, n < 16384))

private theorem vars_varint {ns : List Nat} (h : ∀ n ∈ ns, n < 16384) :
    Vars ns (ns.flatMap (varint 1)) := by
  induction ns with
  | nil => rfl
  | cons n ns ih =>
    refine ⟨varint 1 n, _, ⟨1, by decide, ?_, rfl⟩,
      ih fun m hm => h m (List.mem_cons_of_mem _ hm), rfl⟩
    exact h n List.mem_cons_self

theorem payload_encodeAll (h : ∀ f ∈ fs, f.Small) :
    Payload fs (encodeAll fs) := by
  induction fs with
  | nil => rfl
  | cons f fs ih =>
    exact ⟨f.encode, encodeAll fs,
      ⟨_, vars_varint (h f List.mem_cons_self), rfl⟩,
      ih fun g hg => h g (List.mem_cons_of_mem _ hg), rfl⟩

theorem payloads_encodeAll {ds : List (List (List InitialFrame))}
    (h : ∀ d ∈ ds, ∀ fs ∈ d, ∀ f ∈ fs, f.Small) :
    List.Forall₂ (List.Forall₂ Payload) ds (ds.map fun d => d.map encodeAll) := by
  rw [List.forall₂_map_right_iff, List.forall₂_same]
  intro d hd
  rw [List.forall₂_map_right_iff, List.forall₂_same]
  exact fun fs hfs => payload_encodeAll (h d hd fs hfs)

instance (text : Bytes) (f : InitialFrame) : Decidable (f.Of text) := by
  unfold InitialFrame.Of
  cases f with
  | ack largest delay first ranges ecn => exact Nat.decLe _ _
  | crypto offset data => exact instDecidableAnd
  | _ => exact .isTrue trivial

instance (f : InitialFrame) (i : Nat) : Decidable (f.Carries i) := by
  unfold InitialFrame.Carries
  cases f with
  | crypto offset data => exact instDecidableAnd
  | _ => exact .isFalse id

def sampleText : Bytes :=
  [1, 0, 0, 42] ++ List.replicate 34 0 ++ [0, 0, 2, 0, 0, 0, 0, 0]

theorem clientHello_sampleText : ClientHello sampleText .empty :=
  ⟨by decide, List.replicate 34 0 ++ [0, 0, 2, 0, 0, 0, 0, 0], by decide,
    by decide⟩

def sampleDatagrams : List (List (List InitialFrame)) :=
  [[[.crypto 20 (sampleText.drop 20), .padding], [.ack 7 0 0 [(1, 2)] none]],
    [[.ping, .crypto 0 (sampleText.take 30)]]]

theorem hello_reassembled_sample :
    (run feed .new ((sampleDatagrams.map fun d => d.map encodeAll).map
      fun d => d.map some)).hello = some .empty :=
  hello_reassembled.1 sampleText .empty sampleDatagrams _
    clientHello_sampleText (payloads_encodeAll (by decide)) (by decide)
    (by decide) (by decide) (by decide)

def longAck : InitialFrame := .ack 0 0 0 (List.replicate 257 (0, 0)) none

theorem hello_not_reassembled :
    (run feed .new [[some (encodeAll [longAck])],
      [some (encodeAll [.crypto 0 sampleText])]]).hello = none ∧
    (run feed .new (List.replicate 128 [some (encodeAll [.ping])] ++
      [[some (encodeAll [.crypto 0 sampleText])]])).hello = none ∧
    ¬ ∀ (text : Bytes) (h : Hello)
      (datagrams : List (List (List InitialFrame)))
      (plains : List (List Bytes)), ClientHello text h →
      List.Forall₂ (List.Forall₂ Payload) datagrams plains →
      (∀ fs ∈ datagrams.flatten, ∀ f ∈ fs, ∀ offset data,
        f = .crypto offset data → offset + data.length ≤ text.length ∧
          data = (text.drop offset).take data.length) →
      (∀ i < text.length, ∃ fs ∈ datagrams.flatten, ∃ f ∈ fs, f.Carries i) →
      (run feed .new (plains.map fun d => d.map some)).hello = some h := by
  have hack : (run feed .new [[some (encodeAll [longAck])],
      [some (encodeAll [.crypto 0 sampleText])]]).hello = none := by
    decide +kernel
  refine ⟨hack, by decide +kernel, fun h => ?_⟩
  have hall := h sampleText .empty [[[longAck]], [[.crypto 0 sampleText]]]
    ([[[longAck]], [[.crypto 0 sampleText]]].map fun d => d.map encodeAll)
    clientHello_sampleText (payloads_encodeAll (by decide +kernel)) (by
      intro fs hfs f hf offset data hcrypto
      simp only [List.flatten_cons, List.flatten_nil, List.cons_append,
        List.nil_append, List.mem_cons, List.not_mem_nil, or_false] at hfs
      rcases hfs with rfl | rfl
      · rw [List.mem_singleton.mp hf] at hcrypto
        cases hcrypto
      · rw [List.mem_singleton.mp hf] at hcrypto
        cases hcrypto
        decide) (by decide)
  exact absurd (hack.symm.trans hall) (by decide)

end ProxyLane.Mitm.QuicProbe
