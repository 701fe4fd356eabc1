import ProxyLane.Hook.ChildEnvironment

/-!
# Rewriting the environment of a child

A block that is rewritten holds the variables of the one before it, other than
the hook's own, and is read back as long as it is not larger than a block may
be.
-/

namespace ProxyLane.Hook.ChildEnvironment

open ProxyLane.Foundation

variable {χ : Type} (c : CharType χ)

def Clean (entry : List χ) : Prop := entry ≠ [] ∧ c.nul ∉ entry

def block (entries : List (List χ)) : List χ :=
  entries.flatMap (fun entry => entry ++ [c.nul]) ++ [c.nul]

def blockBytes (entries : List (List χ)) : Nat :=
  (block c entries).length * c.size

def Holds (memory : List χ) (entries : List (List χ)) : Prop :=
  (∀ entry ∈ entries, Clean c entry) ∧ ∃ rest, memory = block c entries ++ rest

theorem serialize_holds {entries : List (List χ)} (h : ∀ e ∈ entries, Clean c e)
    (rest : List χ) : Holds c (serialize c entries ++ rest) entries := by
  refine ⟨h, ?_⟩
  cases entries with
  | nil => exact ⟨c.nul :: rest, by simp [serialize, block]⟩
  | cons entry entries => exact ⟨rest, by simp [serialize, block]⟩

theorem ofCode_ne {a b : Nat} (ha : a < 128) (hb : b < 128) (hne : a ≠ b) :
    c.ofCode a ≠ c.ofCode b := fun h => hne (c.ofCode_inj a ha b hb h)

theorem not_mem_text {s : String} {code : Nat} (hcode : code < 128)
    (h : s.toList.all fun x => x.toNat < 128 && x.toNat != code) :
    c.ofCode code ∉ c.text s := by
  intro hmem
  obtain ⟨x, hx, heq⟩ := List.mem_map.1 hmem
  have hchar := List.all_eq_true.1 h x hx
  simp only [Bool.and_eq_true, decide_eq_true_eq, bne_iff_ne] at hchar
  exact ofCode_ne c hchar.1 hcode hchar.2 heq

theorem nul_not_mem_decimal (flags : UInt32) : c.nul ∉ decimal c flags := by
  intro hmem
  obtain ⟨x, hx, heq⟩ := List.mem_map.1 hmem
  have hdigit := Nat.isDigit_of_mem_toDigits (by decide) (by decide) hx
  rw [Char.isDigit_iff_toNat] at hdigit
  have hzero : '0'.toNat = 48 := rfl
  have hnine : '9'.toNat = 57 := rfl
  exact ofCode_ne c (by omega) (by decide) (by omega) heq

theorem deferred_clean : c.equals ∉ deferredCigEnv c ∧
    c.nul ∉ deferredCigEnv c ∧ deferredCigEnv c ≠ [] := by
  refine ⟨not_mem_text c (by decide) (by decide), not_mem_text c (by decide)
    (by decide), ?_⟩
  simp [deferredCigEnv, CharType.text]

private theorem text_marker : c.text "=1" = [c.equals, c.ofCode 49] := by
  simp [CharType.text, CharType.equals]

theorem text_equals : c.text "=" = [c.equals] := by
  simp [CharType.text, CharType.equals]

theorem nul_ne_equals : c.nul ≠ c.equals := ofCode_ne c (by decide) (by decide)
  (by decide)

variable {variableName : Option (List χ)} {entry : List χ}

theorem mem_addedEntries {addMarker : Bool} {flags : UInt32}
    (h : entry ∈ addedEntries c addMarker variableName flags) :
    (∃ name ∈ variableName, entry = name ++ c.equals :: [c.ofCode 49]) ∨
      entry = deferredCigEnv c ++ c.equals :: decimal c flags := by
  unfold addedEntries at h
  rw [List.mem_append] at h
  rcases h with h | h
  · left
    cases variableName with
    | none => cases h
    | some name =>
      refine ⟨name, rfl, ?_⟩
      simp only [text_marker] at h
      split at h
      · exact List.mem_singleton.1 h
      · cases h
  · right
    split at h
    · rw [List.mem_singleton.1 h, text_equals, List.append_assoc]
      rfl
    · cases h

theorem map_key_eq {read reread : List (List χ)} (hperm : reread.Perm read)
    (h : read.Pairwise fun a b => key c a ≤ key c b)
    (h' : reread.Pairwise fun a b => key c a ≤ key c b) :
    reread.map (key c) = read.map (key c) :=
  List.Perm.eq_of_pairwise (fun _ _ _ _ => le_antisymm)
    (List.pairwise_map.2 h') (List.pairwise_map.2 h) (hperm.map _)

variable {entries : List (List χ)}

theorem blockBytes_perm {others : List (List χ)}
    (h : entries.Perm others) : blockBytes c entries = blockBytes c others := by
  rw [blockBytes, blockBytes, block, block, List.length_append, List.length_append,
    (h.flatMap_right _).length_eq]

def Names (entry name : List χ) : Prop :=
  ∃ spelled value, entry = spelled ++ c.equals :: value ∧ c.equals ∉ spelled ∧
    spelled ≠ [] ∧ key c spelled = key c name

theorem names_self {name : List χ} (hne : name ≠ []) (h : c.equals ∉ name)
    (value : List χ) : Names c (name ++ c.equals :: value) name :=
  ⟨name, value, rfl, h, hne, rfl⟩

def Own (variableName : Option (List χ)) (entry : List χ) : Prop :=
  (∃ name ∈ variableName, Names c entry name) ∨ Names c entry (deferredCigEnv c)

def Proper (variableName : Option (List χ)) : Prop :=
  ∀ name ∈ variableName, name ≠ [] ∧ c.equals ∉ name

theorem addedEntries_own
    (hname : Proper c variableName) (addMarker : Bool) (flags : UInt32) :
    ∀ e ∈ addedEntries c addMarker variableName flags, Own c variableName e := by
  intro e he
  rcases mem_addedEntries c he with ⟨name, hmem, rfl⟩ | rfl
  · exact .inl ⟨name, hmem, names_self c (hname name hmem).1 (hname name hmem).2 _⟩
  · exact .inr (names_self c (deferred_clean c).2.2 (deferred_clean c).1 _)

theorem not_own
    (h : c.equals ∉ entry) : ¬ Own c variableName entry := by
  rintro (⟨name, -, spelled, value, rfl, -⟩ | ⟨spelled, value, rfl, -⟩) <;>
    simp at h

theorem block_holds (h : ∀ e ∈ entries, Clean c e) :
    Holds c (block c entries) entries := ⟨h, [], (List.append_nil _).symm⟩

variable [DecidableEq χ]

theorem entryLength_clean {entry : List χ} (h : c.nul ∉ entry) (room : Nat)
    (rest : List χ) :
    entryLength c room (entry ++ c.nul :: rest) =
      if entry.length < room then some entry.length else none := by
  induction entry generalizing room with
  | nil =>
    cases room with
    | zero => rfl
    | succ room => simp [entryLength]
  | cons x entry ih =>
    rw [List.mem_cons, not_or] at h
    cases room with
    | zero => rfl
    | succ room =>
      rw [List.cons_append, entryLength, if_neg (Ne.symm h.1), ih h.2,
        List.length_cons]
      split
      · rw [if_pos (by omega)]
        rfl
      · rw [if_neg (by omega)]
        rfl

theorem readFrom_block (h : ∀ e ∈ entries, Clean c e)
    (room : Nat) (rest : List χ) (before : List (List χ)) :
    readFrom c room (block c entries ++ rest) before =
      if (block c entries).length ≤ room then some (before ++ entries)
      else none := by
  induction entries generalizing room before with
  | nil =>
    have hlength : entryLength c room (block c [] ++ rest) =
        if 0 < room then some 0 else none :=
      @entryLength_clean χ c _ [] (by simp) room rest
    by_cases hroom : 0 < room
    · rw [if_pos hroom] at hlength
      rw [readFrom_zero c hlength, if_pos (by simp [block]; omega), List.append_nil]
    · rw [if_neg hroom] at hlength
      rw [readFrom_none c hlength, if_neg (by simp [block]; omega)]
  | cons entry entries ih =>
    rw [List.forall_mem_cons] at h
    obtain ⟨⟨hne, hnul⟩, hrest⟩ := h
    obtain ⟨n, hn⟩ : ∃ n, entry.length = n + 1 :=
      Nat.exists_eq_succ_of_ne_zero fun hzero => hne (List.length_eq_zero_iff.1 hzero)
    have hmemory : block c (entry :: entries) ++ rest =
        entry ++ c.nul :: (block c entries ++ rest) := by
      simp [block]
    have htotal : (block c (entry :: entries)).length =
        (n + 2) + (block c entries).length := by
      simp only [block, List.flatMap_cons, List.length_append,
        List.length_singleton]
      omega
    have hlength := entryLength_clean c hnul room (block c entries ++ rest)
    rw [hmemory]
    by_cases hroom : entry.length < room
    · rw [if_pos hroom, hn] at hlength
      have htake : (entry ++ c.nul :: (block c entries ++ rest)).take (n + 1) =
          entry := List.take_left' hn
      have hdrop : (entry ++ c.nul :: (block c entries ++ rest)).drop (n + 2) =
          block c entries ++ rest := by
        rw [List.append_cons]
        exact List.drop_left' (by simp [hn])
      rw [readFrom_succ c hlength, htake, hdrop, ih hrest, htotal]
      by_cases hfits : (block c entries).length ≤ room - (n + 2)
      · rw [if_pos hfits, if_pos (by omega), List.append_assoc]
        rfl
      · rw [if_neg hfits, if_neg]
        omega
    · rw [if_neg hroom] at hlength
      rw [readFrom_none c hlength, htotal, if_neg (by omega)]

theorem readEnvironmentEntries_block {memory : List χ}
    (h : Holds c memory entries) :
    readEnvironmentEntries c (some memory) =
      if blockBytes c entries ≤ maxBytes then some entries else none := by
  obtain ⟨hclean, rest, rfl⟩ := h
  rw [readEnvironmentEntries, Option.bind_some, readFrom_block c hclean]
  have hiff : (block c entries).length ≤ maxBytes / c.size ↔
      blockBytes c entries ≤ maxBytes := Nat.le_div_iff_mul_le c.size_pos
  by_cases hfits : blockBytes c entries ≤ maxBytes
  · rw [if_pos (hiff.2 hfits), if_pos hfits, List.nil_append]
  · rw [if_neg (mt hiff.1 hfits), if_neg hfits]

theorem findIdx?_equals {spelled : List χ} (h : c.equals ∉ spelled)
    (value : List χ) :
    (spelled ++ c.equals :: value).findIdx? (· = c.equals) = some spelled.length := by
  rw [List.findIdx?_append, List.findIdx?_eq_none_iff.2 fun x hx => by
    simpa using fun heq : x = c.equals => h (heq ▸ hx)]
  simp [List.findIdx?_cons]

theorem environmentEntryHasName_iff {name : List χ} :
    environmentEntryHasName c entry name ↔ Names c entry name := by
  constructor
  · intro h
    cases entry with
    | nil => cases h
    | cons first rest =>
      rw [environmentEntryHasName] at h
      split at h
      case isTrue => cases h
      case isFalse hfirst =>
        split at h
        case h_1 => cases h
        case h_2 separator hfound =>
          rw [List.findIdx?_eq_some_iff_getElem] at hfound
          obtain ⟨hlt, heq, hbefore⟩ := hfound
          rw [decide_eq_true_eq] at heq
          have hsplit : first :: rest = (first :: rest).take separator ++
              c.equals :: (first :: rest).drop (separator + 1) := by
            rw [← heq, ← List.drop_eq_getElem_cons hlt, List.take_append_drop]
          simp only [Bool.and_eq_true, beq_iff_eq] at h
          refine ⟨_, _, hsplit, fun hmem => ?_, fun hnil => ?_, h.2⟩
          · obtain ⟨j, hj, hget⟩ := List.mem_iff_getElem.1 hmem
            rw [List.getElem_take] at hget
            rw [List.length_take] at hj
            exact hbefore j (by omega) (decide_eq_true hget)
          · rw [hnil, List.nil_append, List.cons.injEq] at hsplit
            exact hfirst hsplit.1
  · rintro ⟨spelled, value, rfl, hspelled, hne, hkey⟩
    cases spelled with
    | nil => exact absurd rfl hne
    | cons first spelled =>
      have hfound := findIdx?_equals c hspelled value
      rw [List.mem_cons, not_or] at hspelled
      have hlength := congrArg List.length hkey
      simp only [key, List.length_map] at hlength
      rw [List.cons_append] at hfound ⊢
      rw [environmentEntryHasName, if_neg (Ne.symm hspelled.1), hfound]
      have htake : (first :: (spelled ++ c.equals :: value)).take
          (first :: spelled).length = first :: spelled := by
        rw [← List.cons_append, List.take_left]
      simp only [htake]
      simp only [hlength, BEq.rfl, Bool.true_and, beq_iff_eq]
      exact hkey

theorem dropped_iff :
    dropped c variableName entry ↔ Own c variableName entry := by
  cases variableName with
  | none => simp [dropped, Own, environmentEntryHasName_iff]
  | some name => simp [dropped, Own, environmentEntryHasName_iff]

instance (variableName : Option (List χ)) (entry : List χ) :
    Decidable (Own c variableName entry) :=
  decidable_of_iff (dropped c variableName entry) (dropped_iff c)

/-- The entries of a child: those of its creator that are not the hook's, and
the hook's. -/
def childEntries (addMarker : Bool) (variableName : Option (List χ))
    (deferredSignatureFlags : UInt32) (entries : List (List χ)) :
    List (List χ) :=
  entries.filter (fun entry => ¬ Own c variableName entry) ++
    addedEntries c addMarker variableName deferredSignatureFlags

theorem buildChildEnvironment_eq (sort : Sorting (key c))
    {supplied inherited : Option (List χ)} {memory : List χ}
    (hsource : supplied.or inherited = some memory) (h : Holds c memory entries)
    (hsize : blockBytes c entries ≤ maxBytes) (addMarker : Bool)
    (variableName : Option (List χ)) (deferredSignatureFlags : UInt32) :
    buildChildEnvironment c sort supplied inherited addMarker variableName
        deferredSignatureFlags =
      some (serialize c (sort.run
        (childEntries c addMarker variableName deferredSignatureFlags entries))) := by
  have hfilter : (fun entry => !dropped c variableName entry) =
      fun entry => decide ¬ Own c variableName entry := by
    funext entry
    rw [Bool.eq_iff_iff]
    simp [← dropped_iff]
  rw [buildChildEnvironment, hsource, readEnvironmentEntries_block c h,
    if_pos hsize, Option.map_some, hfilter, childEntries]

theorem childEntries_clean (hname : ∀ name ∈ variableName, c.nul ∉ name)
    (h : ∀ e ∈ entries, Clean c e) (addMarker : Bool) (flags : UInt32) :
    ∀ e ∈ childEntries c addMarker variableName flags entries, Clean c e := by
  intro e he
  rcases List.mem_append.1 he with hkept | hadded
  · exact h e (List.mem_filter.1 hkept).1
  · rcases mem_addedEntries c hadded with ⟨name, hmem, rfl⟩ | rfl
    · have hone : c.nul ≠ c.ofCode 49 := ofCode_ne c (by decide) (by decide)
        (by decide)
      refine ⟨by simp, ?_⟩
      simp [hname name hmem, nul_ne_equals c, hone]
    · refine ⟨by simp, ?_⟩
      simp [(deferred_clean c).2.1, nul_ne_equals c, nul_not_mem_decimal c flags]

theorem childEntries_again (hname : Proper c variableName) (addMarker : Bool)
    (flags : UInt32) {read : List (List χ)}
    (h : read.Perm (childEntries c addMarker variableName flags entries)) :
    (childEntries c addMarker variableName flags read).Perm
      (childEntries c addMarker variableName flags entries) := by
  apply List.Perm.append_right
  have hkept := h.filter fun entry => decide ¬ Own c variableName entry
  have hadded : (addedEntries c addMarker variableName flags).filter
      (fun entry => decide ¬ Own c variableName entry) = [] := by
    rw [List.filter_eq_nil_iff]
    intro e he
    simp [addedEntries_own c hname addMarker flags e he]
  rw [childEntries, List.filter_append, List.filter_filter, hadded,
    List.append_nil] at hkept
  simpa only [Bool.and_self] using hkept

/-- The block that is built has the entries of the child, in order, and is
read back unless it is larger than a block may be; rewriting it moves at most
entries that are equal without their case. -/
def Lossless (addMarker : Bool) (variableName : Option (List χ))
    (deferredSignatureFlags : UInt32)
    (build : Option (List χ) → Option (List χ) → Option (List χ)) : Prop :=
  ∀ supplied inherited memory entries, supplied.or inherited = some memory →
    Holds c memory entries → blockBytes c entries < maxBytes →
    let child := childEntries c addMarker variableName deferredSignatureFlags entries
    ∃ read, read.Perm child ∧ (read.Pairwise fun a b => key c a ≤ key c b) ∧
      ∃ out, out = serialize c read ∧ build supplied inherited = some out ∧ ∀ rest,
        if maxBytes < blockBytes c child then
          readEnvironmentEntries c (some (out ++ rest)) = none
        else readEnvironmentEntries c (some (out ++ rest)) = some read ∧
          (Proper c variableName → ∃ again reread,
            build (some (out ++ rest)) inherited = some again ∧
            again = serialize c reread ∧ reread.Perm read ∧
            reread.map (key c) = read.map (key c) ∧
            ((∀ a ∈ read, ∀ b ∈ read, key c a = key c b → a = b) → again = out))

theorem lossless_build (sort : Sorting (key c)) (addMarker : Bool)
    (hname : ∀ name ∈ variableName, c.nul ∉ name)
    (deferredSignatureFlags : UInt32) :
    Lossless c addMarker variableName deferredSignatureFlags
      fun supplied inherited => buildChildEnvironment c sort supplied inherited
        addMarker variableName deferredSignatureFlags := by
  intro supplied inherited memory entries hsource h hsize child
  have hbuild := buildChildEnvironment_eq c sort hsource h hsize.le addMarker
    variableName deferredSignatureFlags
  obtain ⟨read, hread⟩ : ∃ read, sort.run child = read := ⟨_, rfl⟩
  rw [hread] at hbuild
  have hperm : read.Perm child := hread ▸ sort.perm child
  have hsorted : read.Pairwise fun a b => key c a ≤ key c b :=
    hread ▸ sort.sorted child
  have hclean : ∀ e ∈ read, Clean c e := fun e he =>
    childEntries_clean c hname h.1 addMarker deferredSignatureFlags e
      (hperm.mem_iff.1 he)
  refine ⟨read, hperm, hsorted, _, rfl, hbuild, fun rest => ?_⟩
  have hholds : Holds c (serialize c read ++ rest) read :=
    serialize_holds c hclean rest
  have hback := readEnvironmentEntries_block c hholds
  rw [blockBytes_perm c hperm] at hback
  split
  case isTrue hlarge => rw [hback, if_neg (by omega)]
  case isFalse hfits =>
    rw [not_lt] at hfits
    rw [if_pos hfits] at hback
    refine ⟨hback, fun hproper => ?_⟩
    have hagain := buildChildEnvironment_eq c sort
      (show (some (serialize c read ++ rest)).or inherited = some _ from rfl)
      hholds (by rw [blockBytes_perm c hperm]; exact hfits)
      addMarker variableName deferredSignatureFlags
    have hchild : (childEntries c addMarker variableName deferredSignatureFlags
        read).Perm read :=
      (childEntries_again c hproper addMarker deferredSignatureFlags hperm).trans
        hperm.symm
    have hreread := (sort.perm _).trans hchild
    refine ⟨_, _, hagain, rfl, hreread,
      map_key_eq c hreread hsorted (sort.sorted _), fun hkeys => ?_⟩
    have hsame := sort.run_eq hchild.symm hsorted fun a ha b hb =>
      hkeys a (hchild.mem_iff.1 ha) b (hchild.mem_iff.1 hb)
    rw [hsame]

/-- Both builders rewrite without loss; the narrow one with the name that the
conversion gives, and without a marker if it gives none. -/
theorem child_environment_lossless {variableName : List UInt16}
    (hname : 0 ∉ variableName) (addMarker : Bool)
    (deferredSignatureFlags : UInt32) :
    (∀ fold sort, Lossless (wide fold) addMarker
      (if variableName.isEmpty then none else some variableName)
      deferredSignatureFlags fun supplied inherited =>
        buildWideChildEnvironment fold sort supplied inherited addMarker
          variableName deferredSignatureFlags) ∧
    ∀ fold toAnsi sort, (∀ name ∈ toAnsi variableName, 0 ∉ name) →
      Lossless (narrow fold) addMarker
        (if variableName.isEmpty then none else toAnsi variableName)
        deferredSignatureFlags fun supplied inherited =>
          buildAnsiChildEnvironment fold toAnsi sort supplied inherited addMarker
            variableName deferredSignatureFlags := by
  refine ⟨fun fold sort => lossless_build _ sort addMarker (fun name hmem => ?_) _,
    fun fold toAnsi sort hansi =>
      lossless_build _ sort addMarker (fun name hmem => ?_) _⟩
  · split at hmem
    · cases hmem
    · cases hmem
      exact hname
  · split at hmem
    · cases hmem
    · exact hansi name hmem

def foldAscii (x : UInt16) : Nat :=
  if 65 ≤ x.toNat ∧ x.toNat ≤ 90 then x.toNat + 32 else x.toNat

/-- `a=x` and `A=x`. -/
def twins : List (List UInt16) := [[97, 61, 120], [65, 61, 120]]

theorem twins_clean : ∀ e ∈ twins, Clean (wide foldAscii) e := by
  simp [twins, Clean, CharType.nul, wide]

theorem child_environment_lossless_twins :
    ∃ out read,
      buildWideChildEnvironment foldAscii (Sorting.stable _)
        (some (serialize (wide foldAscii) twins)) none true [77] 0 = some out ∧
      readEnvironmentEntries (wide foldAscii) (some out) = some read ∧
      read.Perm (twins ++ [[77, 61, 49]]) := by
  have hname : (0 : UInt16) ∉ [(77 : UInt16)] := by decide
  have hholds := serialize_holds (wide foldAscii) twins_clean []
  obtain ⟨read, hperm, -, out, -, hout, hread⟩ :=
    (child_environment_lossless hname true 0).1 foldAscii (Sorting.stable _) (some _)
      none _ _ rfl hholds (by decide)
  have hback := hread []
  have hchild : childEntries (wide foldAscii) true (some [77]) 0 twins =
      twins ++ [[77, 61, 49]] := by decide
  simp only [List.isEmpty_cons, Bool.false_eq_true, if_false, hchild] at hback hperm
  rw [if_neg (by decide), List.append_nil] at hback
  obtain ⟨hreads, -⟩ := hback
  rw [List.append_nil] at hout
  exact ⟨out, read, hout, hreads, hperm⟩

theorem grown_block_not_read {n : Nat} (hn : (n + 3) * 2 < maxBytes)
    (hlarge : maxBytes < (n + 7) * 2) :
    ∃ memory entries out, Holds (wide foldAscii) memory entries ∧
      blockBytes (wide foldAscii) entries < maxBytes ∧
      buildWideChildEnvironment foldAscii (Sorting.stable _) (some memory) none
        true [77] 0 = some out ∧
      readEnvironmentEntries (wide foldAscii) (some out) = none := by
  obtain ⟨entry, hentry⟩ : ∃ entry : List UInt16,
      List.replicate (n + 1) 97 = entry := ⟨_, rfl⟩
  have hmem : ∀ x ∈ entry, x = 97 := fun x hx =>
    List.eq_of_mem_replicate (hentry ▸ hx)
  have hnul : (wide foldAscii).nul ∉ entry := fun h => absurd (hmem _ h) (by decide)
  have hequals : (wide foldAscii).equals ∉ entry := fun h =>
    absurd (hmem _ h) (by decide)
  have hlength : entry.length = n + 1 := by rw [← hentry, List.length_replicate]
  have hclean : ∀ e ∈ [entry], Clean (wide foldAscii) e := by
    intro e he
    rw [List.mem_singleton.1 he]
    refine ⟨fun hnil => ?_, hnul⟩
    rw [hnil] at hlength
    cases hlength
  have hholds := block_holds (wide foldAscii) hclean
  have hsize : blockBytes (wide foldAscii) [entry] < maxBytes := by
    have htotal : blockBytes (wide foldAscii) [entry] = (n + 3) * 2 := by
      simp [blockBytes, block, hlength, wide]
    rwa [htotal]
  have hchild : childEntries (wide foldAscii) true (some [77]) 0 [entry] =
      [entry, [77, 61, 49]] := by
    have hkept : [entry].filter (fun e =>
        decide ¬ Own (wide foldAscii) (some [77]) e) = [entry] := by
      simp [not_own (wide foldAscii) hequals]
    rw [childEntries, hkept]
    rfl
  have hbytes : blockBytes (wide foldAscii) [entry, [77, 61, 49]] =
      (n + 7) * 2 := by
    simp [blockBytes, block, hlength, wide]
  have hlossless := lossless_build (wide foldAscii) (Sorting.stable _) true
    (show ∀ name ∈ some [(77 : UInt16)], _ from by decide) 0
  obtain ⟨_, -, -, out, -, hout, hread⟩ :=
    hlossless (some _) none _ _ rfl hholds hsize
  refine ⟨_, _, out, hholds, hsize, hout, ?_⟩
  have hnone := hread []
  simp only [hchild, hbytes, hlarge, if_true, List.append_nil] at hnone
  exact hnone

theorem build_block (sort : Sorting (key c)) (h : ∀ e ∈ entries, Clean c e)
    (hsize : blockBytes c entries ≤ maxBytes) (addMarker : Bool)
    (variableName : Option (List χ)) (flags : UInt32) {child : List (List χ)}
    (hchild : sort.run (childEntries c addMarker variableName flags entries) = child)
    (rest : List χ) :
    buildChildEnvironment c sort (some (serialize c entries ++ rest)) none addMarker
      variableName flags = some (serialize c child) := by
  have hbuild := buildChildEnvironment_eq c sort
    (show (some (serialize c entries ++ rest)).or none = some _ from rfl)
    (serialize_holds c h rest) hsize addMarker variableName flags
  rw [hbuild, hchild]

theorem twins_moved :
    ∃ out again,
      buildWideChildEnvironment foldAscii (Sorting.backwards _)
        (some (serialize (wide foldAscii) twins)) none false [77] 0 = some out ∧
      buildWideChildEnvironment foldAscii (Sorting.backwards _) (some out) none
        false [77] 0 = some again ∧ again ≠ out := by
  have hclean : ∀ e ∈ twins.reverse, Clean (wide foldAscii) e := by
    simpa using twins_clean
  have hchild : (Sorting.backwards (key (wide foldAscii))).run
      (childEntries (wide foldAscii) false (some [77]) 0 twins) = twins.reverse := by
    decide
  have hback : (Sorting.backwards (key (wide foldAscii))).run
      (childEntries (wide foldAscii) false (some [77]) 0 twins.reverse) = twins := by
    decide
  have hfirst := build_block (wide foldAscii) _ twins_clean (by decide) _ _ _
    hchild []
  have hsecond := build_block (wide foldAscii) _ hclean (by decide) _ _ _ hback []
  rw [List.append_nil] at hfirst hsecond
  exact ⟨_, _, hfirst, hsecond, by decide⟩

/-- A name with an equals sign is never found again, so its entry is added
once more. -/
theorem marker_doubled :
    ∃ out again,
      buildWideChildEnvironment foldAscii (Sorting.stable _)
        (some (serialize (wide foldAscii) [])) none true [65, 61, 66] 0 = some out ∧
      buildWideChildEnvironment foldAscii (Sorting.stable _) (some out) none
        true [65, 61, 66] 0 = some again ∧ again ≠ out := by
  have hnone : ∀ e ∈ ([] : List (List UInt16)), Clean (wide foldAscii) e := nofun
  have hone : ∀ e ∈ [[65, 61, 66, 61, 49]], Clean (wide foldAscii) e := by
    simp [Clean, CharType.nul, wide]
  have hchild : (Sorting.stable (key (wide foldAscii))).run
      (childEntries (wide foldAscii) true (some [65, 61, 66]) 0 []) =
      [[65, 61, 66, 61, 49]] := by
    decide
  have htwice : (Sorting.stable (key (wide foldAscii))).run
      (childEntries (wide foldAscii) true (some [65, 61, 66]) 0
        [[65, 61, 66, 61, 49]]) =
      [[65, 61, 66, 61, 49], [65, 61, 66, 61, 49]] := by
    decide
  have hfirst := build_block (wide foldAscii) _ hnone (by decide) _ _ _ hchild []
  have hsecond := build_block (wide foldAscii) _ hone (by decide) _ _ _ htwice []
  rw [List.append_nil] at hfirst hsecond
  exact ⟨_, _, hfirst, hsecond, by decide⟩

def toAnsiAscii (name : List UInt16) : Option (List UInt8) :=
  if name.length < 64 then some (name.map UInt16.toUInt8) else none

theorem marker_missing :
    buildAnsiChildEnvironment UInt8.toNat toAnsiAscii (Sorting.stable _)
      (some (serialize (narrow UInt8.toNat) [])) none true (List.replicate 64 77)
      0 = some (serialize (narrow UInt8.toNat) []) := by
  have hnone : ∀ e ∈ ([] : List (List UInt8)), Clean (narrow UInt8.toNat) e := nofun
  have hchild : (Sorting.stable (key (narrow UInt8.toNat))).run
      (childEntries (narrow UInt8.toNat) true none 0 []) = [] := by
    decide
  have hbuild := build_block (narrow UInt8.toNat) _ hnone (by decide) _ _ _ hchild []
  rwa [List.append_nil] at hbuild

theorem child_environment_disturbed :
    (∃ memory entries out, Holds (wide foldAscii) memory entries ∧
      blockBytes (wide foldAscii) entries < maxBytes ∧
      buildWideChildEnvironment foldAscii (Sorting.stable _) (some memory) none
        true [77] 0 = some out ∧
      readEnvironmentEntries (wide foldAscii) (some out) = none) ∧
    (∃ memory out again, Holds (wide foldAscii) memory twins ∧
      buildWideChildEnvironment foldAscii (Sorting.backwards _) (some memory) none
        false [77] 0 = some out ∧
      buildWideChildEnvironment foldAscii (Sorting.backwards _) (some out) none
        false [77] 0 = some again ∧ again ≠ out) ∧
    (∃ memory out again, Holds (wide foldAscii) memory [] ∧
      buildWideChildEnvironment foldAscii (Sorting.stable _) (some memory) none
        true [65, 61, 66] 0 = some out ∧
      buildWideChildEnvironment foldAscii (Sorting.stable _) (some out) none
        true [65, 61, 66] 0 = some again ∧ again ≠ out) ∧
    ∃ memory, Holds (narrow UInt8.toNat) memory [] ∧
      buildAnsiChildEnvironment UInt8.toNat toAnsiAscii (Sorting.stable _)
        (some memory) none true (List.replicate 64 77) 0 = some memory := by
  have htwins := serialize_holds (wide foldAscii) twins_clean []
  have hnone := @serialize_holds _ (wide foldAscii) [] nofun []
  have hansi := @serialize_holds _ (narrow UInt8.toNat) [] nofun []
  rw [List.append_nil] at htwins hnone hansi
  obtain ⟨out, again, hout, hagain, hne⟩ := twins_moved
  obtain ⟨marked, doubled, hmarked, hdoubled, hmore⟩ := marker_doubled
  exact ⟨grown_block_not_read (n := 524284) (by decide) (by decide),
    ⟨_, out, again, htwins, hout, hagain, hne⟩,
    ⟨_, marked, doubled, hnone, hmarked, hdoubled, hmore⟩,
    ⟨_, hansi, marker_missing⟩⟩

end ProxyLane.Hook.ChildEnvironment
