import ProxyLane.Foundation.Bytes

/-!
# Framing

A framing cuts the next message off the front of a text, or finds that the
message is not complete.  What it cuts does not change with more text behind,
so a stream has the same messages however it arrives.
-/

namespace ProxyLane.Foundation

structure Framing (μ : Type) where
  cut : Bytes → Option (μ × Bytes)
  shrinks : ∀ {b m rest}, cut b = some (m, rest) → rest.length < b.length
  stable : ∀ {b m rest} (more : Bytes), cut b = some (m, rest) →
    cut (b ++ more) = some (m, rest ++ more)

namespace Framing

variable {μ : Type} (F : Framing μ)

def split (b : Bytes) : List μ × Bytes :=
  match _h : F.cut b with
  | none => ([], b)
  | some (m, rest) =>
    let (ms, left) := split rest
    (m :: ms, left)
termination_by b.length
decreasing_by exact F.shrinks ‹_›

theorem split_of_none {b : Bytes} (h : F.cut b = none) :
    F.split b = ([], b) := by
  rw [split]
  split
  · rfl
  · rename_i heq
    rw [h] at heq
    cases heq

theorem split_of_some {b rest : Bytes} {m : μ}
    (h : F.cut b = some (m, rest)) :
    F.split b = (m :: (F.split rest).1, (F.split rest).2) := by
  rw [split]
  split
  · rename_i heq
    rw [h] at heq
    cases heq
  · rename_i heq
    rw [h] at heq
    cases heq
    rfl

theorem cut_split (b : Bytes) : F.cut (F.split b).2 = none := by
  cases h : F.cut b with
  | none => rw [split_of_none F h, h]
  | some next =>
    obtain ⟨m, rest⟩ := next
    rw [split_of_some F h]
    exact cut_split rest
termination_by b.length
decreasing_by exact F.shrinks h

theorem split_append (b more : Bytes) :
    F.split (b ++ more) =
      ((F.split b).1 ++ (F.split ((F.split b).2 ++ more)).1,
        (F.split ((F.split b).2 ++ more)).2) := by
  cases h : F.cut b with
  | none => simp [split_of_none F h]
  | some next =>
    obtain ⟨m, rest⟩ := next
    rw [split_of_some F (F.stable more h), split_of_some F h,
      split_append rest more]
    rfl
termination_by b.length
decreasing_by exact F.shrinks h

end Framing

def framed (message : Bytes) : Bytes := beBytes 2 message.length ++ message

private theorem beNat_take_append {b : Bytes} {n : Nat} (more : Bytes)
    (h : n ≤ b.length) : beNat ((b ++ more).take n) = beNat (b.take n) := by
  rw [List.take_append_of_le_length h]

def lengthPrefixed : Framing Bytes where
  cut b :=
    if b.length < 2 ∨ b.length < beNat (b.take 2) + 2 then none
    else some ((b.drop 2).take (beNat (b.take 2)), b.drop (beNat (b.take 2) + 2))
  shrinks := by
    intro b m rest h
    split at h
    · cases h
    · cases h
      rw [List.length_drop]
      omega
  stable := by
    intro b m rest more h
    split at h
    · cases h
    · rename_i hlong
      cases h
      rw [not_or, Nat.not_lt, Nat.not_lt] at hlong
      have htake := beNat_take_append more hlong.1
      rw [if_neg (by rw [htake, List.length_append]; omega), htake,
        List.drop_append_of_le_length hlong.1, List.drop_append_of_le_length
        hlong.2, List.take_append_of_le_length (by
          rw [List.length_drop]
          omega)]

theorem beBytes_two (a b : UInt8) :
    beBytes 2 (a.toNat * 256 + b.toNat) = [a, b] := by
  have ha := a.toNat_lt
  have hb := b.toNat_lt
  simp only [beBytes, List.nil_append, List.cons_append, List.cons.injEq, and_true]
  constructor <;> apply UInt8.toNat_inj.mp <;>
    simp only [UInt8.toNat_ofNat'] <;> omega

theorem eq_framed_of_cut {b m rest : Bytes}
    (h : lengthPrefixed.cut b = some (m, rest)) : b = framed m ++ rest := by
  simp only [lengthPrefixed] at h
  split at h
  · cases h
  · rename_i hlong
    cases h
    rw [not_or, Nat.not_lt, Nat.not_lt] at hlong
    match b, hlong with
    | x :: y :: b, hlong =>
      have hlen : beNat ((x :: y :: b).take 2) = x.toNat * 256 + y.toNat := by
        simp [beNat]
      rw [hlen] at hlong ⊢
      simp only [List.length_cons] at hlong
      have hmessage : ((x :: y :: b).drop 2).take (x.toNat * 256 + y.toNat) =
          b.take (x.toNat * 256 + y.toNat) := rfl
      rw [framed, hmessage, List.length_take, Nat.min_eq_left (by omega),
        beBytes_two]
      simp

theorem framed_split (b : Bytes) :
    b = (lengthPrefixed.split b).1.flatMap framed ++ (lengthPrefixed.split b).2 := by
  cases h : lengthPrefixed.cut b with
  | none => simp [Framing.split_of_none _ h]
  | some next =>
    obtain ⟨m, rest⟩ := next
    have hframed := eq_framed_of_cut h
    rw [Framing.split_of_some _ h, List.flatMap_cons, List.append_assoc,
      ← framed_split rest]
    exact hframed
termination_by b.length
decreasing_by exact lengthPrefixed.shrinks h

end ProxyLane.Foundation
