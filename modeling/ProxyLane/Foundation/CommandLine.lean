import Mathlib.Data.List.TakeWhile
import Mathlib.Tactic

/-!
# Command lines

Blanks separate the arguments of a command line, a quotation mark begins or ends
a part in which they do not, and an escape character counts as such only before
a quotation mark: two of them stand for one, and one that is left over for the
quotation mark itself.
-/

namespace ProxyLane.Foundation.CommandLine

structure Quoting (α : Type) where
  blank : α → Bool
  quote : α
  escape : α
  blank_quote : blank quote = false
  blank_escape : blank escape = false
  quote_ne_escape : quote ≠ escape

/-- The arguments that are complete, the one that was begun, the escapes that
were counted after it, and whether blanks belong to it. -/
structure Scan (α : Type) where
  done : List (List α)
  current : Option (List α)
  escapes : Nat
  quoted : Bool

def Scan.clean {α : Type} (done : List (List α)) : Scan α := ⟨done, none, 0, false⟩

variable {α : Type} [DecidableEq α] (q : Quoting α)

def Scan.held (s : Scan α) : List α :=
  s.current.getD [] ++ List.replicate s.escapes q.escape

def Scan.arguments (s : Scan α) : List (List α) :=
  if s.current.isSome then s.done ++ [s.held q] else s.done

def Scan.put (s : Scan α) (text : List α) : Scan α :=
  { s with current := some (s.current.getD [] ++ text), escapes := 0 }

def step (s : Scan α) (c : α) : Scan α :=
  if c = q.escape then
    { s with current := some (s.current.getD []), escapes := s.escapes + 1 }
  else if c = q.quote then
    let half := List.replicate (s.escapes / 2) q.escape
    if s.escapes % 2 = 0 then { s.put half with quoted := !s.quoted }
    else s.put (half ++ [q.quote])
  else if !s.quoted && q.blank c then .clean (s.arguments q)
  else s.put (List.replicate s.escapes q.escape ++ [c])

def run (s : Scan α) (text : List α) : Scan α := text.foldl (step q) s

def split (text : List α) : List (List α) := (run q (.clean []) text).arguments q

/-- The name of the program and what follows it.  Escapes do not count in a
name. -/
def program (text : List α) : List α × List α :=
  if text.head? = some q.quote then
    (text.tail.takeWhile (· ≠ q.quote), (text.tail.dropWhile (· ≠ q.quote)).tail)
  else (text.takeWhile (!q.blank ·), text.dropWhile (!q.blank ·))

@[simp] theorem run_nil (s : Scan α) : run q s [] = s := rfl

@[simp] theorem run_cons (s : Scan α) (c : α) (text : List α) :
    run q s (c :: text) = run q (step q s c) text := rfl

theorem run_append (s : Scan α) (first second : List α) :
    run q s (first ++ second) = run q (run q s first) second :=
  List.foldl_append

omit [DecidableEq α] in
@[simp] theorem arguments_clean (done : List (List α)) :
    (Scan.clean done).arguments q = done := rfl

@[simp] theorem split_nil : split q [] = [] := rfl

variable {c : α} {s : Scan α}

theorem step_blank (hc : q.blank c = true)
    (hs : s.quoted = false) : step q s c = .clean (s.arguments q) := by
  have hescape : c ≠ q.escape := by
    rintro rfl
    simp [q.blank_escape] at hc
  have hquote : c ≠ q.quote := by
    rintro rfl
    simp [q.blank_quote] at hc
  simp [step, hescape, hquote, hs, hc]

def Scan.after (before : List (List α)) (s : Scan α) : Scan α :=
  { s with done := before ++ s.done }

omit [DecidableEq α] in
theorem arguments_after (before : List (List α)) (s : Scan α) :
    (s.after before).arguments q = before ++ s.arguments q := by
  cases hs : s.current <;> simp [Scan.arguments, Scan.after, Scan.held, hs]

theorem step_after (before : List (List α)) (s : Scan α) (c : α) :
    step q (s.after before) c = (step q s c).after before := by
  have harguments := arguments_after q before s
  by_cases hescape : c = q.escape
  · simp [step, hescape, Scan.after]
  by_cases hquote : c = q.quote
  · by_cases hparity : s.escapes % 2 = 0 <;>
      simp [step, hquote, hparity, q.quote_ne_escape, Scan.after, Scan.put]
  by_cases hblank : s.quoted = false ∧ q.blank c = true
  · rw [step_blank q hblank.2 hblank.1, step_blank q hblank.2 (by exact hblank.1),
      harguments]
    simp [Scan.clean, Scan.after]
  · have hplain : (!s.quoted && q.blank c) = false := by
      cases hs : s.quoted <;> simp_all
    simp [step, hescape, hquote, hplain, Scan.after, Scan.put]

private theorem run_after (before : List (List α)) (s : Scan α) (text : List α) :
    run q (s.after before) text = (run q s text).after before := by
  induction text generalizing s with
  | nil => rfl
  | cons c text ih =>
    rw [run_cons, step_after, ih, run_cons]

variable {first : List α}

theorem split_boundary (rest : List α)
    (hfirst : (run q (.clean []) first).quoted = false) (hc : q.blank c = true) :
    split q (first ++ c :: rest) = split q first ++ split q rest := by
  have hclean : Scan.clean (split q first) =
      (Scan.clean []).after (split q first) := by
    simp [Scan.clean, Scan.after]
  rw [split, run_append, run_cons, step_blank q hc hfirst]
  change (run q (.clean (split q first)) rest).arguments q = _
  rw [hclean, run_after, arguments_after]
  rfl

theorem split_blank (rest : List α) (hc : q.blank c = true) :
    split q (c :: rest) = split q rest := by
  have hclean : (run q (.clean []) []).quoted = false := rfl
  simpa using split_boundary q rest hclean hc

theorem split_dropWhile (text : List α) :
    split q (text.dropWhile q.blank) = split q text := by
  induction text with
  | nil => rfl
  | cons c text ih =>
    by_cases hc : q.blank c = true
    · rw [List.dropWhile_cons_of_pos hc, ih, split_blank q text hc]
    · rw [List.dropWhile_cons_of_neg hc]

theorem split_append {second : List α}
    (hfirst : (run q (.clean []) first).quoted = false)
    (hsecond : second.head?.all q.blank = true) :
    split q (first ++ second) = split q first ++ split q second := by
  cases second with
  | nil => simp
  | cons c rest =>
    have hc : q.blank c = true := by simpa using hsecond
    rw [split_boundary q rest hfirst hc, split_blank q rest hc]

theorem step_held (hquote : c ≠ q.quote)
    (hc : s.quoted = true ∨ q.blank c = false) :
    (step q s c).done = s.done ∧ (step q s c).current.isSome = true ∧
      (step q s c).held q = s.held q ++ [c] ∧
      (step q s c).quoted = s.quoted := by
  have hblank : (!s.quoted && q.blank c) = false := by
    rcases hc with hc | hc <;> simp [hc]
  by_cases hescape : c = q.escape
  · subst hescape
    simp [step, Scan.held, List.replicate_succ']
  · simp [step, hescape, hquote, hblank, Scan.put, Scan.held]

theorem run_held {text : List α} (hne : text ≠ [])
    (htext : ∀ c ∈ text, c ≠ q.quote ∧ (s.quoted = true ∨ q.blank c = false)) :
    (run q s text).arguments q = s.done ++ [s.held q ++ text] ∧
      (run q s text).quoted = s.quoted := by
  induction text generalizing s with
  | nil => simp at hne
  | cons c text ih =>
    obtain ⟨hquote, hc⟩ := htext c (by simp)
    obtain ⟨hdone, hcurrent, hheld, hquoted⟩ := step_held q hquote hc
    by_cases hrest : text = []
    · subst hrest
      simp [Scan.arguments, hdone, hcurrent, hheld, hquoted]
    · have htail := ih (s := step q s c) hrest fun d hd => by
        rw [hquoted]
        exact htext d (List.mem_cons_of_mem c hd)
      simpa [hdone, hheld, hquoted] using htail

theorem split_word {word : List α}
    (hfirst : (run q (.clean []) first).quoted = false) (hc : q.blank c = true)
    (hne : word ≠ []) (hword : ∀ d ∈ word, d ≠ q.quote ∧ q.blank d = false) :
    split q (first ++ c :: word) = split q first ++ [word] := by
  have hrun := (run_held q (s := .clean []) hne fun d hd =>
    ⟨(hword d hd).1, .inr (hword d hd).2⟩).1
  rw [split_boundary q word hfirst hc]
  simpa [split, Scan.clean, Scan.held] using hrun

/-- If a word that is put behind a blank becomes an argument of its own, the
blank is outside quotation marks. -/
theorem split_probe {word : List α} {before : List (List α)} (hc : q.blank c = true)
    (hne : word ≠ []) (hword : ∀ d ∈ word, d ≠ q.quote ∧ q.blank d = false)
    (h : split q (first ++ c :: word) = before ++ [word]) :
    (run q (.clean []) first).quoted = false ∧ split q first = before := by
  by_cases hfirst : (run q (.clean []) first).quoted = true
  · have hcons : c :: word ≠ [] := by simp
    have hrun := (run_held q (s := run q (.clean []) first) hcons fun d hd => by
        refine ⟨?_, .inl hfirst⟩
        rcases List.mem_cons.1 hd with rfl | hd
        · rintro rfl
          simp [q.blank_quote] at hc
        · exact (hword d hd).1).1
    have hlast : word = Scan.held q (run q (.clean []) first) ++ c :: word := by
      rw [split, run_append, hrun] at h
      simpa using (congrArg List.getLast? h).symm
    have hlength := congrArg List.length hlast
    simp only [List.length_append, List.length_cons] at hlength
    omega
  · simp only [Bool.not_eq_true] at hfirst
    refine ⟨hfirst, ?_⟩
    rw [split_word q hfirst hc hne hword] at h
    exact List.append_cancel_right h

theorem arguments_step
    (h : s.arguments q ≠ [] ∨ q.blank c = false) : (step q s c).arguments q ≠ [] := by
  by_cases hblank : s.quoted = false ∧ q.blank c = true
  · rw [step_blank q hblank.2 hblank.1]
    simpa [hblank.2] using h
  · have hsome : (step q s c).current.isSome = true := by
      by_cases hescape : c = q.escape
      · simp [step, hescape]
      by_cases hquote : c = q.quote
      · by_cases hparity : s.escapes % 2 = 0 <;>
          simp [step, hquote, hparity, q.quote_ne_escape, Scan.put]
      · refine (step_held q hquote ?_).2.1
        cases hs : s.quoted <;> simp_all
    simp [Scan.arguments, hsome]

theorem split_ne_nil {text : List α} (hc : c ∈ text)
    (hblank : q.blank c = false) : split q text ≠ [] := by
  have hkeep : ∀ (rest : List α) (s : Scan α), s.arguments q ≠ [] →
      (run q s rest).arguments q ≠ [] := by
    intro rest
    induction rest with
    | nil => exact fun s hs => hs
    | cons d rest ih => exact fun s hs => ih _ (arguments_step q (.inl hs))
  obtain ⟨before, after, rfl⟩ := List.append_of_mem hc
  rw [split, run_append, run_cons]
  exact hkeep after _ (arguments_step q (.inr hblank))

variable {name : List α}

theorem program_plain {rest : List α} (hname : ∀ c ∈ name, q.blank c = false)
    (hquote : (name ++ rest).head? ≠ some q.quote)
    (hrest : rest.head?.all q.blank = true) :
    program q (name ++ rest) = (name, rest) := by
  have hall : ∀ c ∈ name, (!q.blank c) = true := by simpa using hname
  have hstop : rest.takeWhile (!q.blank ·) = [] ∧
      rest.dropWhile (!q.blank ·) = rest := by
    cases rest with
    | nil => simp
    | cons c rest => simp_all
  rw [program, if_neg hquote, List.takeWhile_append_of_pos hall,
    List.dropWhile_append_of_pos hall, hstop.1, hstop.2, List.append_nil]

theorem program_quoted (rest : List α) (hname : q.quote ∉ name) :
    program q (q.quote :: (name ++ q.quote :: rest)) = (name, rest) := by
  have hall : ∀ c ∈ name, decide (c ≠ q.quote) = true := by
    intro c hc
    simpa using ne_of_mem_of_not_mem hc hname
  rw [program, List.head?_cons, if_pos rfl, List.tail_cons,
    List.takeWhile_append_of_pos hall,
    List.dropWhile_append_of_pos hall]
  simp

theorem program_open (hname : q.quote ∉ name) :
    program q (q.quote :: name) = (name, []) := by
  have hall : ∀ c ∈ name, decide (c ≠ q.quote) = true := by
    intro c hc
    simpa using ne_of_mem_of_not_mem hc hname
  have htake : name.takeWhile (· ≠ q.quote) = name := List.takeWhile_eq_self_iff.2 hall
  have hdrop : name.dropWhile (· ≠ q.quote) = [] := List.dropWhile_eq_nil_iff.2 hall
  simp only [program, List.head?_cons, List.tail_cons, if_true, htake, hdrop,
    List.tail_nil]

theorem program_cases (text : List α) :
    (∃ name rest, text = name ++ rest ∧ (∀ c ∈ name, q.blank c = false) ∧
      text.head? ≠ some q.quote ∧ rest.head?.all q.blank = true) ∨
    (∃ name rest, text = q.quote :: (name ++ q.quote :: rest) ∧ q.quote ∉ name) ∨
    ∃ name, text = q.quote :: name ∧ q.quote ∉ name := by
  by_cases hquote : text.head? = some q.quote
  · obtain ⟨body, rfl⟩ := List.head?_eq_some_iff.1 hquote
    by_cases hbody : q.quote ∈ body
    · obtain ⟨name, rest, rfl, hname⟩ := List.eq_append_cons_of_mem hbody
      exact .inr (.inl ⟨name, rest, rfl, hname⟩)
    · exact .inr (.inr ⟨body, rfl, hbody⟩)
  · refine .inl ⟨text.takeWhile (!q.blank ·), text.dropWhile (!q.blank ·),
      List.takeWhile_append_dropWhile.symm, ?_, hquote, ?_⟩
    · intro c hc
      have hall := List.all_takeWhile (p := (!q.blank ·)) (l := text)
      simpa using List.all_eq_true.1 hall c hc
    · have hhead := List.head?_dropWhile_not (!q.blank ·) text
      cases h : (text.dropWhile (!q.blank ·)).head? with
      | none => rfl
      | some c => simpa [h] using hhead

/-- A text that is cut within the name of its program holds no argument but what
was added to it. -/
theorem split_cut (after : List α) {k : Nat} {word : List α}
    (hname : q.quote ∉ name) (hk : k ≤ name.length + 1) (hc : q.blank c = true)
    (hne : word ≠ []) (hword : ∀ d ∈ word, d ≠ q.quote ∧ q.blank d = false) :
    (split q (program q ((q.quote :: (name ++ after)).take k ++ c :: word)).2).length
      ≤ 1 := by
  have hquote : q.quote ≠ c := by
    rintro rfl
    simp [q.blank_quote] at hc
  cases k with
  | zero =>
    have hprogram : program q ([] ++ c :: word) = ([], c :: word) :=
      program_plain q (by simp) (by simpa using hquote.symm) (by simpa using hc)
    have hsplit : split q ([] ++ c :: word) = [] ++ [word] :=
      split_word q rfl hc hne hword
    simp only [List.nil_append] at hprogram hsplit
    simp [hprogram, hsplit]
  | succ k =>
    have hopen : q.quote ∉ name.take k ++ c :: word := by
      simp only [List.mem_append, List.mem_cons, not_or]
      exact ⟨fun h => hname (List.mem_of_mem_take h), hquote,
        fun h => (hword _ h).1 rfl⟩
    have htake : (q.quote :: (name ++ after)).take (k + 1) ++ c :: word =
        q.quote :: (name.take k ++ c :: word) := by
      simp [List.take_append_of_le_length (by omega : k ≤ name.length)]
    rw [htake, program_open q hopen]
    simp

/-- A command line is the name of its program and a rest that is split.  If it is
cut before a blank and a word is added, either the cut is in the name or the rest
is cut. -/
theorem exists_program (text : List α) : ∃ head name rest, text = head ++ rest ∧
    program q text = (name, rest) ∧
    ∀ (k : Nat) (c : α) (word : List α), k ≤ text.length →
      text[k]?.all q.blank = true → q.blank c = true → word ≠ [] →
      (∀ d ∈ word, d ≠ q.quote ∧ q.blank d = false) →
      (split q (program q (text.take k ++ c :: word)).2).length ≤ 1 ∨
        head.length ≤ k ∧ program q (text.take k ++ c :: word) =
          (name, rest.take (k - head.length) ++ c :: word) := by
  rcases program_cases q text with ⟨name, rest, rfl, hname, hquote, hrest⟩ |
    ⟨name, rest, rfl, hname⟩ | ⟨name, rfl, hname⟩
  · refine ⟨name, name, rest, rfl, program_plain q hname hquote hrest, ?_⟩
    intro k c word _ hblank hc _ _
    by_cases hk : k < name.length
    · rw [List.getElem?_append_left hk, List.getElem?_eq_getElem hk] at hblank
      simp [hname _ (List.getElem_mem hk)] at hblank
    · have hle : name.length ≤ k := by omega
      refine .inr ⟨hle, ?_⟩
      rw [List.take_append, List.take_of_length_le hle, List.append_assoc]
      have hhead : (rest.take (k - name.length) ++ c :: word).head?.all q.blank =
          true := by
        cases rest with
        | nil => simpa using hc
        | cons d rest => cases k - name.length <;> simp_all
      refine program_plain q hname ?_ hhead
      cases name with
      | nil =>
        intro h
        rw [List.nil_append] at h
        rw [h] at hhead
        simp [q.blank_quote] at hhead
      | cons d name => simpa using hquote
  · refine ⟨q.quote :: (name ++ [q.quote]), name, rest, by simp,
      program_quoted q rest hname, ?_⟩
    intro k c word _ _ hc hne hword
    by_cases hk : k ≤ name.length + 1
    · exact .inl (split_cut q _ hname hk hc hne hword)
    · have hsplit : q.quote :: (name ++ q.quote :: rest) =
          (q.quote :: (name ++ [q.quote])) ++ rest := by
        simp
      have hlength : (q.quote :: (name ++ [q.quote])).length ≤ k := by
        simp
        omega
      refine .inr ⟨hlength, ?_⟩
      rw [hsplit, List.take_append, List.take_of_length_le hlength]
      simpa using program_quoted q _ hname
  · refine ⟨q.quote :: name, name, [], by simp, program_open q hname, ?_⟩
    intro k c word hk _ hc hne hword
    have hcut := split_cut q [] hname (by simpa using hk) hc hne hword
    exact .inl (by simpa using hcut)

end ProxyLane.Foundation.CommandLine
