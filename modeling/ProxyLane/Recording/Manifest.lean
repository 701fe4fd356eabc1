import ProxyLane.Foundation.JsonPretty
import ProxyLane.Foundation.Run

/-!
# The manifest of a recording

The manifest counts its own bytes in `used_bytes`, so it is written again until
the number in it fits its length.  More digits never make the number smaller:
the numbers move in one direction and stop, as long as the sum fits 64 bits.
-/

namespace ProxyLane.Recording.Manifest

open ProxyLane.Foundation

structure Facts where
  productVersion : String
  recordingId : String
  started : UInt64
  now : UInt64
  status : String
  reason : Option String
  sequence : UInt64
  volume : UInt64
  totalBytes : UInt64
  minFreeBytes : UInt64
  processSequence : UInt64
  processVolume : UInt64
  hasData : Bool
  completeness : Json
  decoding : Json
  timings : Json

def number (n : UInt64) : Json := .num n.toNat

/-- The document of `manifest_inner`, its fields in the order of their keys. -/
def Facts.fields (f : Facts) : List (String × Json) :=
  [("body_decoding", f.decoding),
   ("capacity_bytes", number f.totalBytes),
   ("events", .str "events-*.jsonl"),
   ("format", .str "ProxyLaneRecording"),
   ("has_data", .bool f.hasData),
   ("last_sequence", number f.sequence),
   ("list_index", .obj [("file", .str "sessions.index.jsonl"), ("version", .num 1)]),
   ("min_free_bytes", number f.minFreeBytes),
   ("performance", .obj [
     ("note", .str ("Inclusive worker timings; stages overlap and must not be " ++
       "summed. Final manifest write is excluded.")),
     ("stages", f.timings), ("unit", .str "microseconds")]),
   ("process_events", .obj [("files", .str "process-events-*.jsonl"),
     ("last_sequence", number f.processSequence),
     ("scope", .str ("Observed child creation notifications and launcher " ++
       "operations during this recording; not a system-wide process audit")),
     ("version", .num 1), ("volumes", number f.processVolume)]),
   ("producer", .obj [("name", .str "ProxyLane"),
     ("version", .str f.productVersion)]),
   ("quality", f.completeness),
   ("readme", .str "README.txt"),
   ("recording_id", .str f.recordingId),
   ("started_unix_ms", number f.started),
   ("status", .str f.status),
   ("stop_reason", (f.reason.map Json.str).getD .null),
   ("updated_unix_ms", number f.now),
   ("version", .num 2),
   ("volumes", number f.volume)]

def Facts.value (f : Facts) (used : Nat) : Json :=
  (Json.obj f.fields).set "used_bytes" (.num used)

/-- The loop of `manifest_inner`.  `as u64` and `+` keep 64 bits. -/
def settle (base : Nat) : Nat → Json → Option (Json × Bytes)
  | 0, _ => none
  | fuel + 1, value =>
    let bytes := value.toVecPretty
    let used := (base + bytes.length) % 2 ^ 64
    if (value.get "used_bytes").asNat = some used then some (value, bytes)
    else settle base fuel (value.set "used_bytes" (.num used))

structure Journal where
  used : UInt64
  manifestSize : UInt64

def Journal.base (j : Journal) : Nat := j.used.toNat - j.manifestSize.toNat

def Journal.replaced (j : Journal) (size : UInt64) : UInt64 :=
  if j.manifestSize ≤ size then j.used + (size - j.manifestSize)
  else j.used - (j.manifestSize - size)

/-- `manifest_inner`: `written` is whether the new file could be written and put
in the place of the old one. -/
def manifestInner (fuel : Nat) (j : Journal) (f : Facts)
    (written : Except String Unit) : Option (Except String (Json × Journal)) :=
  (settle j.base fuel (f.value j.used.toNat)).map fun (value, bytes) =>
    if bytes.length > 8192 then .error "recording manifest exceeds reserve"
    else match written with
      | .error e => .error e
      | .ok () =>
        let size := UInt64.ofNat bytes.length
        .ok (value, ⟨j.replaced size, size⟩)

/-- A monotone map that does not leave `0 .. bound` comes to a fixed point from
every place in it. -/
theorem exists_fixed_iterate {f : Nat → Nat} {bound n : Nat} (hf : Monotone f)
    (hbound : f bound ≤ bound) (hn : n ≤ bound) :
    ∃ k, f (f^[k] n) = f^[k] n := by
  have hle : ∀ k, f^[k] n ≤ bound := by
    intro k
    induction k with
    | zero => exact hn
    | succ k ih =>
      rw [Function.iterate_succ_apply']
      exact (hf ih).trans hbound
  by_contra hnone
  have hmoves : ∀ k, f^[k + 1] n ≠ f^[k] n := by
    intro k h
    exact hnone ⟨k, by rwa [Function.iterate_succ_apply'] at h⟩
  rcases le_total n (f n) with hup | hdown
  · have hmono : Monotone fun k => f^[k] n := hf.monotone_iterate_of_le_map hup
    have hgrow : ∀ k, k ≤ f^[k] n := by
      intro k
      induction k with
      | zero => exact Nat.zero_le _
      | succ k ih =>
        have hle : f^[k] n ≤ f^[k + 1] n := hmono (Nat.le_succ k)
        have hne := hmoves k
        omega
    have := hgrow (bound + 1)
    have := hle (bound + 1)
    omega
  · have hanti : Antitone fun k => f^[k] n := hf.antitone_iterate_of_map_le hdown
    have hsink : ∀ k, f^[k] n + k ≤ n := by
      intro k
      induction k with
      | zero => simp
      | succ k ih =>
        have hle : f^[k + 1] n ≤ f^[k] n := hanti (Nat.le_succ k)
        have hne := hmoves k
        omega
    have := hsink (n + 1)
    omega

theorem length_toDigits_mono : Monotone fun n => (Nat.toDigits 10 n).length := by
  intro m n h
  apply (Nat.length_toDigits_le_iff (by decide) Nat.length_toDigits_pos).2
  exact h.trans_lt ((Nat.length_toDigits_le_iff (by decide)
    Nat.length_toDigits_pos).1 (Nat.le_refl _))

theorem length_toDigits_u64 {n : Nat} (h : n < 2 ^ 64) :
    (Nat.toDigits 10 n).length ≤ 20 :=
  (Nat.length_toDigits_le_iff (by decide) (by decide)).2 (h.trans (by norm_num))

theorem twenty_digits {n : Nat} (h : 2 ^ 64 ≤ n + 20) :
    20 ≤ (Nat.toDigits 10 n).length := by
  by_contra hlt
  have hsmall : n < 10 ^ 19 :=
    (Nat.length_toDigits_le_iff (b := 10) (by decide) (by decide)).1 (by omega)
  omega

theorem get_value (f : Facts) (n : Nat) :
    (f.value n).get "used_bytes" = .num n := by
  simp [Facts.value, Json.get, Json.get?_set (v := Json.obj f.fields) trivial]

theorem set_value (f : Facts) (m n : Nat) :
    (f.value m).set "used_bytes" (.num n) = f.value n :=
  Json.set_set _ _ _ _

def next (f : Facts) (base n : Nat) : Nat :=
  base + (f.value n).toVecPretty.length

theorem next_mono (f : Facts) (base : Nat) : Monotone (next f base) := by
  obtain ⟨fixed, -, hlength⟩ := Json.length_toVecPretty_set f.fields "used_bytes"
  intro m n h
  have := length_toDigits_mono h
  simp only [next, Facts.value, hlength]
  simp only at this
  omega

theorem next_le (f : Facts) (base : Nat) {n : Nat} (hn : n < 2 ^ 64) :
    next f base n ≤ next f base 0 + 19 := by
  obtain ⟨fixed, -, hlength⟩ := Json.length_toVecPretty_set f.fields "used_bytes"
  have := length_toDigits_u64 hn
  have hzero : (Nat.toDigits 10 0).length = 1 := by decide
  have h0 := hlength 0
  simp only [next, Facts.value, hlength]
  omega

/-- Where no sum of the loop leaves 64 bits, a turn is `next`. -/
theorem settle_iterate (f : Facts) {base n : Nat} (hn : n < 2 ^ 64)
    (hfits : next f base 0 + 19 < 2 ^ 64) {k : Nat}
    (hfixed : next f base ((next f base)^[k] n) = (next f base)^[k] n) :
    ∃ used, next f base used = used ∧
      settle base (k + 1) (f.value n) =
        some (f.value used, (f.value used).toVecPretty) := by
  induction k generalizing n with
  | zero =>
    refine ⟨n, hfixed, ?_⟩
    have hsum : (base + (f.value n).toVecPretty.length) % 2 ^ 64 = n := by
      rw [show base + (f.value n).toVecPretty.length = n from hfixed]
      exact Nat.mod_eq_of_lt hn
    have hnum : (Json.num n).asNat = some n := by
      simp [Json.asNat]
      omega
    simp only [settle, get_value, hsum, hnum, if_true]
  | succ k ih =>
    have hnext := next_le f base hn
    have hsum : (base + (f.value n).toVecPretty.length) % 2 ^ 64 =
        next f base n := Nat.mod_eq_of_lt (by simp only [next] at *; omega)
    rw [settle]
    simp only [hsum, get_value, set_value]
    split_ifs with hstop
    · have heq : next f base n = n := by
        simp only [Json.asNat] at hstop
        split_ifs at hstop
        simpa using hstop.symm
      refine ⟨n, heq, rfl⟩
    · exact ih (by omega) (by simpa [Function.iterate_succ_apply] using hfixed)

theorem settle_value (f : Facts) {base fuel n : Nat} {out : Json} {bytes : Bytes}
    (hn : n < 2 ^ 64) (h : settle base fuel (f.value n) = some (out, bytes)) :
    ∃ used, used < 2 ^ 64 ∧ out = f.value used := by
  induction fuel generalizing n with
  | zero => simp [settle] at h
  | succ fuel ih =>
    rw [settle] at h
    simp only [set_value] at h
    split_ifs at h
    · cases h
      exact ⟨n, hn, rfl⟩
    · exact ih (Nat.mod_lt _ (by decide)) h

def Settles (f : Facts) (j : Journal) : Prop :=
  ∃ fuel value bytes,
    settle j.base fuel (f.value j.used.toNat) = some (value, bytes) ∧
      bytes = value.toVecPretty ∧
        value.get "used_bytes" = .num (j.base + bytes.length : Nat)

def Fits (f : Facts) (j : Journal) : Prop :=
  j.base + (f.value 0).toVecPretty.length + 19 < 2 ^ 64

theorem settles_of_fits {f : Facts} {j : Journal} (h : Fits f j) :
    Settles f j := by
  have hused := j.used.toNat_lt
  have hbound : next f j.base (2 ^ 64 - 1) ≤ 2 ^ 64 - 1 := by
    have := next_le f j.base (n := 2 ^ 64 - 1) (by decide)
    simp only [Fits, next] at *
    omega
  obtain ⟨k, hk⟩ := exists_fixed_iterate (n := j.used.toNat)
    (next_mono f j.base) hbound (by omega)
  obtain ⟨used, hfixed, hsettle⟩ := settle_iterate f hused h hk
  refine ⟨k + 1, _, _, hsettle, rfl, ?_⟩
  rw [get_value, show j.base + _ = used from hfixed]

theorem not_settles {f : Facts} {j : Journal} (h : ¬ Fits f j) :
    ¬ Settles f j := by
  rintro ⟨fuel, value, bytes, hsettle, hbytes, hcount⟩
  obtain ⟨used, hused, rfl⟩ := settle_value f j.used.toNat_lt hsettle
  obtain ⟨fixed, -, hlength⟩ := Json.length_toVecPretty_set f.fields "used_bytes"
  have hzero : (Nat.toDigits 10 0).length = 1 := by decide
  have h0 := hlength 0
  have hu := hlength used
  rw [get_value, Json.num.injEq, hbytes] at hcount
  simp only [Fits, Facts.value, Nat.cast_inj] at *
  -- the number written would need 20 digits, and 64 bits do not hold the sum
  have := twenty_digits (n := used) (by
    have := Nat.length_toDigits_pos (b := 10) (n := used)
    omega)
  omega

theorem manifest_settles_iff (f : Facts) (j : Journal) :
    Settles f j ↔ Fits f j :=
  ⟨fun h => by_contra fun hfits => not_settles hfits h, settles_of_fits⟩

def sampleFacts : Facts :=
  { productVersion := "1.0", recordingId := "r", started := 1, now := 2
    status := "recording", reason := none, sequence := 0, volume := 1
    totalBytes := 1048576, minFreeBytes := 0, processSequence := 0
    processVolume := 0, hasData := false, completeness := .obj []
    decoding := .obj [], timings := .obj [] }

theorem full_never_settles :
    ¬ Settles sampleFacts ⟨18446744073709551615, 0⟩ := by
  apply not_settles
  have hbase : Journal.base ⟨18446744073709551615, 0⟩ = 18446744073709551615 := by
    decide
  simp only [Fits, hbase]
  omega

/-- What moves `used`: a charge, the old bytes of a working file, the final rows
in place of the reserve, and a manifest. -/
inductive Move where
  | charge (bytes : UInt64) (admitted : Bool)
  | release (bytes : UInt64)
  | finish (rows : UInt64)
  | manifest (fuel : Nat) (f : Facts) (written : Except String Unit)

def Journal.step (total : UInt64) (j : Journal) : Move → Journal
  | .charge bytes admitted =>
    if admitted ∧ bytes.toNat ≤ total.toNat - j.used.toNat - 8192 then
      { j with used := j.used + bytes }
    else j
  | .release bytes => { j with used := j.used - bytes }
  | .finish rows => { j with used := j.used - 65536 + rows }
  | .manifest fuel f written =>
    match manifestInner fuel j f written with
    | some (.ok (_, j)) => j
    | _ => j

/-- The bytes given back are those of other files. -/
def Owned (j : Journal) : Move → Prop
  | .release bytes => bytes.toNat ≤ j.base
  | .finish rows => rows.toNat ≤ 65536 ∧ 65536 ≤ j.base
  | _ => True

structure Within (total : UInt64) (j : Journal) : Prop where
  counted : j.manifestSize.toNat ≤ j.used.toNat
  small : j.manifestSize.toNat ≤ 8192
  room : j.base + 8192 ≤ total.toNat

theorem Within.used_le {total : UInt64} {j : Journal} (h : Within total j) :
    j.used ≤ total := by
  obtain ⟨hcounted, hsmall, hroom⟩ := h
  simp only [Journal.base, UInt64.le_iff_toNat_le] at *
  omega

/-- Below the capacity every manifest of at most 8192 bytes settles. -/
theorem Within.settles {total : UInt64} {j : Journal} (h : Within total j) {f : Facts}
    (hsmall : (f.value 0).toVecPretty.length + 19 ≤ 8192) : Settles f j := by
  have hroom := h.room
  have hlt := total.toNat_lt
  refine settles_of_fits ?_
  simp only [Fits]
  omega

private theorem settle_counts {base fuel : Nat} {value out : Json} {bytes : Bytes}
    (h : settle base fuel value = some (out, bytes)) :
    (out.get "used_bytes").asNat = some ((base + bytes.length) % 2 ^ 64) := by
  induction fuel generalizing value with
  | zero => simp [settle] at h
  | succ fuel ih =>
    rw [settle] at h
    split_ifs at h with hstop
    · cases h
      exact hstop
    · exact ih h

theorem manifestInner_within {total : UInt64} {j j' : Journal}
    (h : Within total j) {fuel : Nat} {f : Facts} {written : Except String Unit}
    {value : Json} (hinner : manifestInner fuel j f written = some (.ok (value, j'))) :
    Within total j' ∧ (value.get "used_bytes").asNat = some j'.used.toNat := by
  obtain ⟨⟨out, bytes⟩, hsettle, hinner⟩ := Option.map_eq_some_iff.1 hinner
  have hcounts := settle_counts hsettle
  obtain ⟨hcounted, hsmall, hroom⟩ := h
  have hlt := total.toNat_lt
  dsimp only at hinner
  split_ifs at hinner with hlarge
  cases written with
  | error e => cases hinner
  | ok _ =>
    cases hinner
    have hsize : (UInt64.ofNat bytes.length).toNat = bytes.length := by
      rw [UInt64.toNat_ofNat']
      omega
    generalize UInt64.ofNat bytes.length = size at hsize ⊢
    have hused : (j.replaced size).toNat = j.base + bytes.length := by
      simp only [Journal.replaced, Journal.base, UInt64.le_iff_toNat_le] at *
      split_ifs <;> simp only [UInt64.toNat_add, UInt64.toNat_sub] <;> omega
    rw [hused, hcounts, Nat.mod_eq_of_lt (by omega)]
    refine ⟨?_, rfl⟩
    constructor <;> simp only [Journal.base, hused, hsize] at * <;> omega

theorem step_within {total : UInt64} (j : Journal) (move : Move)
    (h : Within total j) (hown : Owned j move) : Within total (j.step total move) := by
  have hlt := total.toNat_lt
  cases move with
  | manifest fuel f written =>
    simp only [Journal.step]
    split
    · next hinner => exact (manifestInner_within h hinner).1
    · exact h
  | charge bytes admitted =>
    simp only [Journal.step]
    split_ifs with hfits
    · obtain ⟨hcounted, hsmall, hroom⟩ := h
      constructor <;> simp only [Journal.base, UInt64.toNat_add] at * <;> omega
    · exact h
  | _ =>
    obtain ⟨hcounted, hsmall, hroom⟩ := h
    constructor <;>
      simp [Owned, Journal.step, Journal.base, UInt64.toNat_add,
        UInt64.toNat_sub] at * <;>
      omega

/-- No run of the recording takes more than its capacity, and each manifest that
it puts in place counts all bytes in use. -/
theorem manifests_within_capacity {total : UInt64} {j : Journal} {moves : List Move}
    (h : Within total j) (hown : Admissible (Journal.step total) Owned j moves) :
    (run (Journal.step total) j moves).used ≤ total ∧
      ∀ fuel f written value j',
        manifestInner fuel (run (Journal.step total) j moves) f written =
          some (.ok (value, j')) →
        (value.get "used_bytes").asNat = some j'.used.toNat ∧ j'.used ≤ total := by
  have hrun := run_invariant step_within h hown
  refine ⟨hrun.used_le, ?_⟩
  intro fuel f written value j' hinner
  obtain ⟨hnext, hcounts⟩ := manifestInner_within hrun hinner
  exact ⟨hcounts, hnext.used_le⟩

theorem manifests_within_capacity_sample :
    (run (Journal.step 131072) ⟨66000, 0⟩ [.charge 9 true, .release 5, .finish 4,
      .manifest 3 sampleFacts (.ok ())]).used ≤ 131072 := by
  refine (manifests_within_capacity ⟨by decide, by decide, by decide⟩ ?_).1
  simp [Admissible, Owned, Journal.step, Journal.base]

end ProxyLane.Recording.Manifest
