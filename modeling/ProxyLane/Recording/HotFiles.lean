import Mathlib.Data.List.MinMax
import ProxyLane.Foundation.Bytes
import ProxyLane.Foundation.Run

/-!
# Copies of working files in memory

The writer of a recording keeps the working files it used last in memory, at
most `entriesLimit` of them and at most `bytesLimit` bytes.  A copy is what the
disk holds as long as no two of the names used mean one file, the temporary
names included.
-/

namespace ProxyLane.Recording

open ProxyLane.Foundation

structure HotEntry where
  key : String
  data : Bytes
  used : Nat
  deriving DecidableEq, Repr

structure HotFiles where
  files : List HotEntry := []
  bytes : Nat := 0
  clock : Nat := 0
  deriving DecidableEq, Repr

namespace HotFiles

def bytesLimit : Nat := 8 * 1024 * 1024

def entriesLimit : Nat := 256

def fileLimit : Nat := 256 * 1024

def find? (h : HotFiles) (key : String) : Option HotEntry :=
  h.files.find? fun e => e.key = key

def get (h : HotFiles) (key : String) : Option Bytes × HotFiles :=
  match h.find? key with
  | none => (none, h)
  | some item =>
    (some item.data,
      { h with
        files := h.files.map fun e =>
          if e.key = key then { e with used := h.clock + 1 } else e
        clock := h.clock + 1 })

def remove (h : HotFiles) (key : String) : HotFiles :=
  match h.find? key with
  | none => h
  | some item =>
    { h with
      files := h.files.filter fun e => e.key ≠ key
      bytes := h.bytes - item.data.length }

def Full (h : HotFiles) (size : Nat) : Prop :=
  entriesLimit ≤ h.files.length ∨ bytesLimit < h.bytes + size

instance (h : HotFiles) (size : Nat) : Decidable (h.Full size) :=
  inferInstanceAs (Decidable (_ ∨ _))

/-- The loop of `put`; `none` is the `unwrap` of an empty map. -/
def evict (size : Nat) : Nat → HotFiles → Option HotFiles
  | 0, h => if h.Full size then none else some h
  | fuel + 1, h =>
    if h.Full size then
      match h.files.argmin HotEntry.used with
      | none => none
      | some oldest => evict size fuel (h.remove oldest.key)
    else some h

def put (h : HotFiles) (key : String) (data : Bytes) : Option HotFiles :=
  let h := h.remove key
  if fileLimit < data.length then some h
  else (evict data.length h.files.length h).map fun h =>
    { files := ⟨key, data, h.clock + 1⟩ :: h.files
      bytes := h.bytes + data.length
      clock := h.clock + 1 }

def total (files : List HotEntry) : Nat := (files.map fun e => e.data.length).sum

structure Sound (h : HotFiles) : Prop where
  nodup : (h.files.map HotEntry.key).Nodup
  bytes : h.bytes = total h.files
  bounded : h.bytes ≤ bytesLimit
  few : h.files.length ≤ entriesLimit

theorem sound_empty : Sound {} :=
  ⟨List.nodup_nil, rfl, Nat.zero_le _, Nat.zero_le _⟩

variable {h : HotFiles} {e : HotEntry}

theorem find?_mem {key : String}
    (hfind : h.find? key = some e) : e ∈ h.files ∧ e.key = key := by
  refine ⟨List.mem_of_find?_eq_some hfind, ?_⟩
  simpa using List.find?_some hfind

theorem total_filter {files : List HotEntry} (hnodup : (files.map HotEntry.key).Nodup)
    (he : e ∈ files) :
    total (files.filter fun x => x.key ≠ e.key) + e.data.length = total files := by
  induction files with
  | nil => cases he
  | cons x rest ih =>
    simp only [List.map_cons, List.nodup_cons] at hnodup
    by_cases hx : x.key = e.key
    · have hself : e = x := by
        rcases List.mem_cons.1 he with h | h
        · exact h
        · exact absurd (List.mem_map.2 ⟨e, h, hx.symm⟩) hnodup.1
      have hrest : rest.filter (fun y => y.key ≠ e.key) = rest := by
        simp only [List.filter_eq_self, decide_eq_true_eq]
        intro y hy hkey
        exact hnodup.1 (List.mem_map.2 ⟨y, hy, hkey.trans hx.symm⟩)
      rw [List.filter_cons_of_neg (by simp [hx]), hrest, hself]
      simp [total, Nat.add_comm]
    · have hmem : e ∈ rest := (List.mem_cons.1 he).resolve_left
        fun h => hx (h ▸ rfl)
      have := ih hnodup.2 hmem
      rw [List.filter_cons_of_pos (by simp [hx])]
      simp only [total, List.map_cons, List.sum_cons] at *
      omega

theorem remove_files (h : HotFiles) (key : String) :
    (h.remove key).files = h.files.filter fun e => e.key ≠ key := by
  rw [remove]
  cases hfind : h.find? key with
  | none =>
    rw [find?, List.find?_eq_none] at hfind
    exact (List.filter_eq_self.2 fun e he => by simpa using hfind e he).symm
  | some item => rfl

theorem mem_remove {key : String} :
    e ∈ (h.remove key).files ↔ e ∈ h.files ∧ e.key ≠ key := by
  simp [remove_files]

theorem remove_sound (hs : h.Sound) (key : String) :
    (h.remove key).Sound := by
  have hfiles := remove_files h key
  have hbytes : (h.remove key).bytes = total (h.remove key).files ∧
      (h.remove key).bytes ≤ h.bytes := by
    rw [hfiles, remove]
    cases hfind : h.find? key with
    | none =>
      rw [find?, List.find?_eq_none] at hfind
      rw [List.filter_eq_self.2 fun e he => by simpa using hfind e he]
      exact ⟨hs.bytes, Nat.le_refl _⟩
    | some item =>
      obtain ⟨hmem, rfl⟩ := find?_mem hfind
      have := total_filter hs.nodup hmem
      have := hs.bytes
      simp only
      omega
  have hsub : List.Sublist (h.remove key).files h.files := by
    rw [hfiles]
    exact List.filter_sublist
  exact
    { nodup := hs.nodup.sublist (hsub.map _)
      bytes := hbytes.1
      bounded := hbytes.2.trans hs.bounded
      few := hsub.length_le.trans hs.few }

private theorem remove_shorter (he : e ∈ h.files) :
    (h.remove e.key).files.length < h.files.length := by
  rw [remove_files]
  exact List.length_filter_lt_length_iff_exists.2 ⟨e, he, by simp⟩

/-- The loop of `put` always finds a file to remove: without files there is room
for every file that is kept. -/
theorem evict_some (hs : h.Sound) {size fuel : Nat}
    (hsize : size ≤ fileLimit) (hfuel : h.files.length ≤ fuel) :
    ∃ h', evict size fuel h = some h' ∧ h'.Sound ∧ ¬ h'.Full size ∧
      ∀ e ∈ h'.files, e ∈ h.files := by
  induction fuel generalizing h with
  | zero =>
    have hnone : h.files = [] := List.length_eq_zero_iff.1 (by omega)
    have hroom : ¬ h.Full size := by
      have := hs.bytes
      simp only [Full, hnone, total, List.map_nil, List.sum_nil, List.length_nil,
        fileLimit, bytesLimit, entriesLimit] at *
      omega
    exact ⟨h, by simp [evict, hroom], hs, hroom, fun _ he => he⟩
  | succ fuel ih =>
    by_cases hfull : h.Full size
    · cases hmin : h.files.argmin HotEntry.used with
      | none =>
        have hnone := List.argmin_eq_none.1 hmin
        have := hs.bytes
        simp only [Full, hnone, total, List.map_nil, List.sum_nil,
          List.length_nil, fileLimit, bytesLimit, entriesLimit] at *
        omega
      | some oldest =>
        have hmem := List.argmin_mem hmin
        have hshort := remove_shorter hmem
        obtain ⟨h', hrun, hsound, hroom, hsub⟩ :=
          ih (remove_sound hs oldest.key) (by omega)
        refine ⟨h', by simp [evict, hfull, hmin, hrun], hsound, hroom, ?_⟩
        exact fun e he => (mem_remove.1 (hsub e he)).1
    · exact ⟨h, by simp [evict, hfull], hs, hfull, fun _ he => he⟩

theorem put_some (hs : h.Sound) (key : String) (data : Bytes) :
    ∃ h', h.put key data = some h' ∧ h'.Sound ∧
      ∀ e ∈ h'.files, (e.key = key ∧ e.data = data) ∨
        (e ∈ h.files ∧ e.key ≠ key) := by
  have hs' := remove_sound hs key
  by_cases hlarge : fileLimit < data.length
  · refine ⟨h.remove key, by simp [put, hlarge], hs', ?_⟩
    exact fun e he => Or.inr (mem_remove.1 he)
  · obtain ⟨h', hrun, hsound, hroom, hsub⟩ :=
      evict_some hs' (show data.length ≤ fileLimit by omega) (Nat.le_refl _)
    refine ⟨_, by simp only [put, hlarge, if_false, hrun, Option.map_some]; rfl,
      ?_, ?_⟩
    · have hfresh : key ∉ h'.files.map HotEntry.key := by
        intro hmem
        obtain ⟨e, he, hkey⟩ := List.mem_map.1 hmem
        exact (mem_remove.1 (hsub e he)).2 hkey
      have hbytes := hsound.bytes
      simp only [Full, not_or, not_le, not_lt] at hroom
      exact
        { nodup := List.nodup_cons.2 ⟨hfresh, hsound.nodup⟩
          bytes := by simp [total, hbytes, Nat.add_comm]
          bounded := hroom.2
          few := hroom.1 }
    · intro e he
      rcases List.mem_cons.1 he with rfl | he
      · exact Or.inl ⟨rfl, rfl⟩
      · exact Or.inr (mem_remove.1 (hsub e he))

theorem get_files (h : HotFiles) (key : String) :
    (h.get key).2.bytes = h.bytes ∧
      (h.get key).2.files.map (fun e => (e.key, e.data)) =
        h.files.map fun e => (e.key, e.data) := by
  rw [get]
  cases h.find? key with
  | none => exact ⟨rfl, rfl⟩
  | some item =>
    refine ⟨rfl, ?_⟩
    rw [List.map_map]
    apply List.map_congr_left
    intro e _
    simp only [Function.comp_apply]
    split_ifs <;> rfl

theorem get_sound (hs : h.Sound) (key : String) :
    (h.get key).2.Sound := by
  obtain ⟨hbytes, hfiles⟩ := get_files h key
  have hkeys := congrArg (List.map Prod.fst) hfiles
  have hdata := congrArg (List.map fun p : String × Bytes => p.2.length) hfiles
  have hlength := congrArg List.length hfiles
  simp only [List.map_map, List.length_map] at hkeys hdata hlength
  exact
    { nodup := by rw [show HotEntry.key = Prod.fst ∘ fun e : HotEntry => (e.key, e.data)
        from rfl, hkeys]; exact hs.nodup
      bytes := by
        rw [hbytes, hs.bytes]
        exact (congrArg List.sum hdata).symm
      bounded := hbytes ▸ hs.bounded
      few := hlength ▸ hs.few }

section Journal

variable {P : Type}

/-- `used` counts with the wrapping arithmetic of its 64 bits. -/
structure Writer (P : Type) where
  hot : HotFiles
  disk : P → Option Bytes
  used : UInt64
  totalBytes : UInt64
  stopped : Option String

/-- What the system answers.  A failed write leaves `leftover` in the temporary
file. -/
structure Answers where
  space : Except String Unit
  read : Except String Unit
  remove : Except String Unit
  createDir : Except String Unit
  write : Except String Unit
  leftover : Option Bytes
  replace : Except String Unit

/-- `Path::with_extension("next")`. -/
def withNext (relative : String) : String :=
  let chars := relative.toList.reverse
  let name := chars.takeWhile fun c => c ≠ '/' ∧ c ≠ '\\'
  let stem := (name.dropWhile fun c => c ≠ '.').drop 1
  let kept := if stem = [] then chars else stem ++ chars.drop name.length
  String.ofList (kept.reverse ++ ".next".toList)

def Writer.charge (w : Writer P) (space : Except String Unit) (size : Nat) :
    Except String Unit × Writer P :=
  match w.stopped with
  | some reason => (.error reason, w)
  | none =>
    if w.totalBytes.toNat - w.used.toNat - 8192 < size then
      let reason := "recording capacity reached"
      (.error reason, { w with stopped := some reason })
    else match space with
      | .error reason => (.error reason, { w with stopped := some reason })
      | .ok () => (.ok (), { w with used := w.used + UInt64.ofNat size })

def Writer.length (w : Writer P) (path : P) : Nat :=
  ((w.disk path).map List.length).getD 0

/-- Put in place of the file: the end of `working_file_inner`. -/
def Writer.replaceFile [DecidableEq P] (file : String → P) (w : Writer P) (relative : String)
    (data : Bytes) (previous : Nat) (a : Answers) :
    Option (Except String Unit × Writer P) :=
  let path := file relative
  let temp := file (withNext relative)
  match a.createDir with
  | .error e => some (.error e, w)
  | .ok () => match a.write with
    | .error e =>
      some (.error e, { w with disk := Function.update w.disk temp a.leftover })
    | .ok () =>
      let w := { w with disk := Function.update w.disk temp (some data) }
      match a.replace with
      | .error e => some (.error e, w)
      | .ok () =>
        (w.hot.put relative data).map fun hot => (.ok (),
          { w with
            hot := hot
            disk := Function.update (Function.update w.disk temp none) path
              (some data)
            used := w.used - UInt64.ofNat previous })

/-- `working_file_inner`; `none` is a panic. -/
def Writer.workingFile [DecidableEq P] (file : String → P) (w : Writer P)
    (relative : String) (data : Bytes) (a : Answers) :
    Option (Except String Unit × Writer P) :=
  let path := file relative
  let (cached, hot) := w.hot.get relative
  let w := { w with hot := hot }
  let previous := (cached.map List.length).getD (w.length path)
  if data = [110, 117, 108, 108] ∧ relative.startsWith "analysis/" then
    match w.disk path, a.remove with
    | some _, .error e => some (.error e, w)
    | _, _ => some (.ok (),
        { w with
          disk := Function.update w.disk path none
          used := w.used - UInt64.ofNat previous
          hot := w.hot.remove relative })
  else if cached = some data then some (.ok (), w)
  else match w.charge a.space data.length with
    | (.error e, w) => some (.error e, w)
    | (.ok (), w) => w.replaceFile file relative data previous a

def Writer.readWorking (file : String → P) (w : Writer P) (relative : String)
    (a : Answers) : Option (Except String Bytes × Writer P) :=
  match w.hot.get relative with
  | (some data, hot) => some (.ok data, { w with hot := hot })
  | (none, hot) => match a.read, w.disk (file relative) with
    | .error e, _ => some (.error e, { w with hot := hot })
    | .ok (), none => some (.error "not found", { w with hot := hot })
    | .ok (), some data =>
      (hot.put relative data).map fun hot => (.ok data, { w with hot := hot })

inductive Op where
  | workingFile (relative : String) (data : Bytes) (a : Answers)
  | readWorking (relative : String) (a : Answers)
  | put (key : String) (data : Bytes)
  | get (key : String)
  | remove (key : String)

def Op.name : Op → String
  | workingFile relative _ _ => relative
  | readWorking relative _ => relative
  | put key _ => key
  | get key => key
  | remove key => key

def Writer.step [DecidableEq P] (file : String → P) (w : Writer P) : Op → Option (Writer P)
  | .workingFile relative data a =>
    (w.workingFile file relative data a).map Prod.snd
  | .readWorking relative a => (w.readWorking file relative a).map Prod.snd
  | .put key data => (w.hot.put key data).map fun hot => { w with hot := hot }
  | .get key => some { w with hot := (w.hot.get key).2 }
  | .remove key => some { w with hot := w.hot.remove key }

def Writer.run [DecidableEq P] (file : String → P) (w : Writer P)
    (ops : List Op) : Option (Writer P) :=
  ops.foldlM (Writer.step file) w

variable {file : String → P} {names : List String}

theorem charge_files (w : Writer P) (space : Except String Unit) (size : Nat) :
    (w.charge space size).2.hot = w.hot ∧ (w.charge space size).2.disk = w.disk := by
  unfold Writer.charge
  split
  · exact ⟨rfl, rfl⟩
  · split_ifs
    · exact ⟨rfl, rfl⟩
    · split <;> exact ⟨rfl, rfl⟩

def Separate (file : String → P) (names : List String) : Prop :=
  ∀ a ∈ names, ∀ b ∈ names, (file a = file b → a = b) ∧ file a ≠ file (withNext b)

def Coherent (file : String → P) (names : List String) (hot : HotFiles)
    (disk : P → Option Bytes) : Prop :=
  ∀ e ∈ hot.files, e.key ∈ names ∧ disk (file e.key) = some e.data

variable {hot : HotFiles}

theorem coherent_get {disk : P → Option Bytes}
    (h : Coherent file names hot disk) (key : String) :
    Coherent file names (hot.get key).2 disk := by
  intro e he
  have hmem := List.mem_map_of_mem (f := fun e : HotEntry => (e.key, e.data)) he
  rw [(get_files hot key).2] at hmem
  obtain ⟨old, hold, heq⟩ := List.mem_map.1 hmem
  have hsame := h old hold
  simp only [Prod.mk.injEq] at heq
  rwa [heq.1, heq.2] at hsame

theorem coherent_remove {disk disk' : P → Option Bytes} {key : String}
    (h : Coherent file names hot disk)
    (hdisk : ∀ k ∈ names, k ≠ key → disk' (file k) = disk (file k)) :
    Coherent file names (hot.remove key) disk' := by
  intro e he
  obtain ⟨hmem, hne⟩ := mem_remove.1 he
  obtain ⟨hname, hsame⟩ := h e hmem
  exact ⟨hname, (hdisk e.key hname hne).trans hsame⟩

theorem coherent_disk {disk disk' : P → Option Bytes}
    (h : Coherent file names hot disk)
    (hdisk : ∀ k ∈ names, disk' (file k) = disk (file k)) :
    Coherent file names hot disk' := by
  intro e he
  obtain ⟨hname, hsame⟩ := h e he
  exact ⟨hname, (hdisk e.key hname).trans hsame⟩

variable (file names)

theorem put_coherent (hs : hot.Sound) (key : String) (data : Bytes) :
    ∃ hot', hot.put key data = some hot' ∧ hot'.Sound ∧
      ∀ disk disk', Coherent file names hot disk → key ∈ names →
        disk' (file key) = some data →
        (∀ k ∈ names, k ≠ key → disk' (file k) = disk (file k)) →
        Coherent file names hot' disk' := by
  obtain ⟨hot', hput, hsound, hmem⟩ := put_some hs key data
  refine ⟨hot', hput, hsound, ?_⟩
  intro disk disk' h hkey hself hother e he
  rcases hmem e he with ⟨rfl, rfl⟩ | ⟨hold, hne⟩
  · exact ⟨hkey, hself⟩
  · obtain ⟨hname, hsame⟩ := h e hold
    exact ⟨hname, (hother e.key hname hne).trans hsame⟩

/-- What one operation keeps: the counters always, the copies for names of
separate files. -/
def Kept (relative : String) (w w' : Writer P) : Prop :=
  w'.hot.Sound ∧
    (Separate file names → relative ∈ names → Coherent file names w.hot w.disk →
      Coherent file names w'.hot w'.disk)

variable {w : Writer P}

theorem readWorking_kept (hs : w.hot.Sound) (relative : String) (a : Answers) :
    ∃ r, w.readWorking file relative a = some r ∧ Kept file names relative w r.2 := by
  have hget := get_sound hs relative
  unfold Writer.readWorking
  split
  · next data hot heq =>
      rw [heq] at hget
      refine ⟨_, rfl, hget, fun _ _ h => ?_⟩
      have := coherent_get h relative
      rwa [heq] at this
  · next hot heq =>
      rw [heq] at hget
      have hcopies : Coherent file names w.hot w.disk →
          Coherent file names hot w.disk := by
        intro h
        have := coherent_get h relative
        rwa [heq] at this
      split
      · exact ⟨_, rfl, hget, fun _ _ h => hcopies h⟩
      · exact ⟨_, rfl, hget, fun _ _ h => hcopies h⟩
      · next data _ hread =>
          obtain ⟨hot', hput, hsound, hkeeps⟩ :=
            put_coherent file names hget relative data
          simp only [hput, Option.map_some]
          refine ⟨_, rfl, hsound, fun _ hname h => ?_⟩
          exact hkeeps _ _ (hcopies h) hname hread fun _ _ _ => rfl

variable [DecidableEq P]

theorem replaceFile_kept (hs : w.hot.Sound) (relative : String)
    (data : Bytes) (previous : Nat) (a : Answers) :
    ∃ r, w.replaceFile file relative data previous a = some r ∧
      Kept file names relative w r.2 := by
  have htemp : ∀ x, Separate file names → relative ∈ names → ∀ k ∈ names,
      Function.update w.disk (file (withNext relative)) x (file k) =
        w.disk (file k) := by
    intro x hsep hname k hk
    exact Function.update_of_ne (hsep k hk relative hname).2 _ _
  unfold Writer.replaceFile
  cases a.createDir with
  | error e => exact ⟨_, rfl, hs, fun _ _ h => h⟩
  | ok _ =>
    cases a.write with
    | error e =>
      exact ⟨_, rfl, hs, fun hsep hname h =>
        coherent_disk h (htemp a.leftover hsep hname)⟩
    | ok _ =>
      cases a.replace with
      | error e =>
        exact ⟨_, rfl, hs, fun hsep hname h =>
          coherent_disk h (htemp (some data) hsep hname)⟩
      | ok _ =>
        obtain ⟨hot', hput, hsound, hkeeps⟩ :=
          put_coherent file names hs relative data
        simp only [hput, Option.map_some]
        refine ⟨_, rfl, hsound, ?_⟩
        intro hsep hname h
        refine hkeeps _ _ h hname (Function.update_self ..) ?_
        intro k hk hne
        have hpath : file k ≠ file relative :=
          fun heq => hne ((hsep k hk relative hname).1 heq)
        simp [Function.update_of_ne hpath,
          Function.update_of_ne (hsep k hk relative hname).2]

theorem workingFile_kept (hs : w.hot.Sound) (relative : String)
    (data : Bytes) (a : Answers) :
    ∃ r, w.workingFile file relative data a = some r ∧
      Kept file names relative w r.2 := by
  have hget := get_sound hs relative
  have hcopies : Coherent file names w.hot w.disk →
      Coherent file names (w.hot.get relative).2 w.disk :=
    fun h => coherent_get h relative
  simp only [Writer.workingFile]
  split_ifs with hnull hsame
  · split
    · exact ⟨_, rfl, hget, fun _ _ h => hcopies h⟩
    · refine ⟨_, rfl, remove_sound hget relative, ?_⟩
      intro hsep hname h
      apply coherent_remove (hcopies h)
      intro k hk hne
      exact Function.update_of_ne
        (fun heq => hne ((hsep k hk relative hname).1 heq)) _ _
  · exact ⟨_, rfl, hget, fun _ _ h => hcopies h⟩
  · obtain ⟨hhot, hdisk⟩ := charge_files
      { w with hot := (w.hot.get relative).2 } a.space data.length
    split
    · next reason w' heq =>
        rw [heq] at hhot hdisk
        simp only at hhot hdisk
        refine ⟨_, rfl, ?_, ?_⟩
        · simpa only [hhot] using hget
        · intro _ _ h
          simpa only [hhot, hdisk] using hcopies h
    · next w' heq =>
        rw [heq] at hhot hdisk
        simp only at hhot hdisk
        obtain ⟨r, hr, hsound, hkeeps⟩ :=
          replaceFile_kept file names (hhot ▸ hget) relative data
          ((((w.hot.get relative).1.map List.length).getD
            (Writer.length { w with hot := (w.hot.get relative).2 }
              (file relative)))) a
        refine ⟨r, hr, hsound, ?_⟩
        intro hsep hname h
        exact hkeeps hsep hname (by simpa only [hhot, hdisk] using hcopies h)

/-- `put` is only called with what the file holds. -/
def Honest (w : Writer P) : Op → Prop
  | .put key data => w.disk (file key) = some data
  | _ => True

theorem step_kept (hs : w.hot.Sound) (op : Op) :
    ∃ w', w.step file op = some w' ∧ w'.hot.Sound ∧
      (Separate file names → op.name ∈ names → Honest file w op →
        Coherent file names w.hot w.disk → Coherent file names w'.hot w'.disk) := by
  cases op with
  | workingFile relative data a =>
    obtain ⟨r, hr, hsound, hkeeps⟩ := workingFile_kept file names hs relative data a
    exact ⟨r.2, by simp [Writer.step, hr], hsound,
      fun hsep hname _ => hkeeps hsep hname⟩
  | readWorking relative a =>
    obtain ⟨r, hr, hsound, hkeeps⟩ := readWorking_kept file names hs relative a
    exact ⟨r.2, by simp [Writer.step, hr], hsound,
      fun hsep hname _ => hkeeps hsep hname⟩
  | put key data =>
    obtain ⟨hot', hput, hsound, hkeeps⟩ :=
      put_coherent file names hs key data
    exact ⟨{ w with hot := hot' }, by simp [Writer.step, hput], hsound,
      fun _ hname hself h => hkeeps _ _ h hname hself fun _ _ _ => rfl⟩
  | get key =>
    exact ⟨_, rfl, get_sound hs key, fun _ _ _ h => coherent_get h key⟩
  | remove key =>
    exact ⟨_, rfl, remove_sound hs key,
      fun _ _ _ h => coherent_remove h fun _ _ _ => rfl⟩

def HonestRun : Writer P → List Op → Prop
  | _, [] => True
  | w, op :: ops =>
    Honest file w op ∧ ∀ w', w.step file op = some w' → HonestRun w' ops

theorem run_kept (hs : w.hot.Sound) (ops : List Op) :
    ∃ w', w.run file ops = some w' ∧ w'.hot.Sound ∧
      (Separate file names → (∀ op ∈ ops, op.name ∈ names) → HonestRun file w ops →
        Coherent file names w.hot w.disk → Coherent file names w'.hot w'.disk) := by
  induction ops generalizing w with
  | nil => exact ⟨w, rfl, hs, fun _ _ _ h => h⟩
  | cons op ops ih =>
    obtain ⟨w₁, hstep, hsound, hkeeps⟩ := step_kept file names hs op
    obtain ⟨w₂, hrun, hsound₂, hkeeps₂⟩ := ih hsound
    refine ⟨w₂, by simpa [Writer.run, hstep] using hrun, hsound₂, ?_⟩
    intro hsep hnames hhonest h
    apply hkeeps₂ hsep (fun op' hop' => hnames op' (List.mem_cons_of_mem _ hop'))
      (hhonest.2 w₁ hstep)
    exact hkeeps hsep (hnames op List.mem_cons_self) hhonest.1 h

/-- From a journal without copies no operation panics, the counters hold, and
for names of separate files a hit is what the disk holds. -/
theorem hot_files_coherent (disk : P → Option Bytes)
    (used totalBytes : UInt64) (stopped : Option String) (ops : List Op) :
    ∃ w', Writer.run file ⟨{}, disk, used, totalBytes, stopped⟩ ops = some w' ∧
      w'.hot.Sound ∧
      (Separate file (ops.map Op.name) →
        HonestRun file ⟨{}, disk, used, totalBytes, stopped⟩ ops →
        ∀ key data hot, w'.hot.get key = (some data, hot) →
          w'.disk (file key) = some data) := by
  obtain ⟨w', hrun, hsound, hkeeps⟩ := run_kept file (ops.map Op.name)
    (show Sound (Writer.hot ⟨{}, disk, used, totalBytes, stopped⟩) from sound_empty)
    ops
  refine ⟨w', hrun, hsound, ?_⟩
  intro hsep hhonest key data hot hhit
  have hcopies := hkeeps hsep (fun op hop => List.mem_map_of_mem hop) hhonest
    (by simp [Coherent])
  rw [get] at hhit
  cases hfind : w'.hot.find? key with
  | none => simp [hfind] at hhit
  | some item =>
    obtain ⟨hmem, rfl⟩ := find?_mem hfind
    simp only [hfind, Prod.mk.injEq, Option.some.injEq] at hhit
    rw [← hhit.1]
    exact (hcopies item hmem).2

end Journal

def allWell : Answers := ⟨.ok (), .ok (), .ok (), .ok (), .ok (), none, .ok ()⟩

def emptyWriter : Writer String := ⟨{}, fun _ => none, 0, 1048576, none⟩

def journalOps : List Op :=
  [.workingFile "a.json" [1] allWell, .put "a.json" [1], .get "a.json"]

theorem hot_files_coherent_journal :
    (emptyWriter.run id journalOps).map (fun w => ((w.hot.get "a.json").1,
      w.disk "a.json")) = some (some [1], some [1]) := by
  obtain ⟨w, hrun, -, hhits⟩ :=
    hot_files_coherent id (fun _ => none) 0 1048576 none journalOps
  have hhonest : HonestRun id emptyWriter journalOps := by
    refine ⟨trivial, fun w hw => ⟨?_, fun _ _ => ⟨trivial, fun _ _ => trivial⟩⟩⟩
    cases hw
    rfl
  have hhit : (emptyWriter.run id journalOps).map (fun w => (w.hot.get "a.json").1) =
      some (some [1]) := by
    decide
  change emptyWriter.run id journalOps = some w at hrun
  simp only [hrun, Option.map_some, Option.some.injEq] at hhit ⊢
  have hseparate : Separate id (journalOps.map Op.name) := by
    unfold Separate
    decide
  exact Prod.ext hhit (hhits hseparate hhonest "a.json" [1] _ (Prod.ext hhit rfl))

theorem stale_copy :
    ((emptyWriter.run id [.workingFile "a.next" [1] allWell,
      .workingFile "a.json" [2] allWell]).map fun w =>
        ((w.hot.get "a.next").1, w.disk "a.next")) = some (some [1], none) := by
  decide

end HotFiles

end ProxyLane.Recording
