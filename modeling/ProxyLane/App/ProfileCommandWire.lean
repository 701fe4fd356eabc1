import ProxyLane.App.ProfileCommand

/-!
# The wire format of profile commands

What is accepted are the well-formed messages, and what is written is one of
them.
-/

namespace ProxyLane.App.ProfileCommand

open RecentApplications Automation ProxyLane.Foundation Cursor

@[simp] theorem dword_length (value : UInt32) : (dword value).length = 4 :=
  leBytes_length 4 _

@[simp] theorem ofDword_dword (value : UInt32) : ofDword (dword value) = value := by
  have hlt := value.toNat_lt
  rw [ofDword, dword, leNat_leBytes, Nat.mod_eq_of_lt (by omega), UInt32.ofNat_toNat]

variable {bytes : Bytes}

theorem dword_ofDword (h : bytes.length = 4) :
    dword (ofDword bytes) = bytes := by
  have hlt := leNat_lt bytes
  rw [h] at hlt
  rw [dword, ofDword, UInt32.toNat_ofNat_of_lt' hlt, ← h, leBytes_leNat]

theorem textBytes_length (text : Text) : (textBytes text).length = text.length * 2 := by
  simp [textBytes, leBytes_length, List.length_flatMap]

theorem textOf_textBytes (text : Text) : textOf (textBytes text) = text := by
  induction text with
  | nil => rfl
  | cons c text ih =>
    obtain ⟨low, high, hpair⟩ := List.length_eq_two.1 (leBytes_length 2 c.toNat)
    have hlt := c.toNat_lt
    have hvalue := leNat_leBytes 2 c.toNat
    rw [hpair, Nat.mod_eq_of_lt (by omega)] at hvalue
    change textOf (leBytes 2 c.toNat ++ textBytes text) = _
    rw [hpair]
    change UInt16.ofNat (leNat [low, high]) :: textOf (textBytes text) = _
    rw [hvalue, UInt16.ofNat_toNat, ih]

theorem textBytes_textOf {count : Nat} (h : bytes.length = count * 2) :
    (textOf bytes).length = count ∧ textBytes (textOf bytes) = bytes := by
  induction count generalizing bytes with
  | zero => simp_all [textOf, textBytes]
  | succ count ih =>
    match bytes, h with
    | [], h => simp at h
    | [_], h => simp at h; omega
    | low :: high :: rest, h =>
      obtain ⟨hlength, hrest⟩ := @ih rest (by simp at h; omega)
      have hlt : leNat [low, high] < 2 ^ 16 := by simpa using leNat_lt [low, high]
      have hpair := leBytes_leNat [low, high]
      refine ⟨by simp [textOf, hlength], ?_⟩
      change leBytes 2 (UInt16.ofNat (leNat [low, high])).toNat ++
        textBytes (textOf rest) = _
      rw [UInt16.toNat_ofNat_of_lt' hlt, hrest]
      exact congrArg (· ++ rest) hpair

@[simp] theorem bytes_length (header : CommandHeader) :
    header.bytes.length = headerSize := by
  simp [CommandHeader.bytes, headerSize]

theorem ofBytes_bytes (header : CommandHeader) :
    CommandHeader.ofBytes header.bytes = header := by
  have hdrop : ∀ (value : UInt32) (n : Nat), 4 ≤ n → (dword value).drop n = [] := by
    intro value n hn
    simp [List.drop_eq_nil_iff, hn]
  have hlast : (dword header.argumentCount).take 4 = dword header.argumentCount :=
    List.take_of_length_le (by simp)
  simp [CommandHeader.ofBytes, CommandHeader.bytes, List.drop_append, hdrop, hlast]

theorem bytes_ofBytes (h : bytes.length = headerSize) :
    (CommandHeader.ofBytes bytes).bytes = bytes := by
  rw [headerSize] at h
  have hfield : ∀ index < 6, dword (ofDword ((bytes.drop (4 * index)).take 4)) =
      (bytes.drop (4 * index)).take 4 := by
    intro index hindex
    apply dword_ofDword
    rw [List.length_take, List.length_drop]
    omega
  have hsplit : ∀ index, bytes.drop (4 * index) =
      (bytes.drop (4 * index)).take 4 ++ bytes.drop (4 * (index + 1)) := by
    intro index
    conv_lhs => rw [← List.take_append_drop 4 (bytes.drop (4 * index)), List.drop_drop]
    rw [Nat.mul_succ]
  have hlast : bytes.drop (4 * 6) = [] := List.drop_of_length_le (by omega)
  simp only [CommandHeader.bytes, CommandHeader.ofBytes]
  rw [hfield 0 (by omega), hfield 1 (by omega), hfield 2 (by omega),
    hfield 3 (by omega), hfield 4 (by omega), hfield 5 (by omega)]
  conv_rhs => rw [← List.drop_zero (l := bytes), ← Nat.mul_zero 4, hsplit 0, hsplit 1,
    hsplit 2, hsplit 3, hsplit 4, hsplit 5, hlast, List.append_nil]

theorem reads_dword : Reads readDword fun value piece => piece = dword value := by
  refine (reads_block 4 ofDword).congr fun value piece => ?_
  constructor
  · rintro ⟨hlength, rfl⟩
    exact (dword_ofDword hlength).symm
  · rintro rfl
    simp

variable {maxChars : Nat}

theorem toNat_ofNat_length {text : Text} (hmax : maxChars < 2 ^ 15)
    (h : text.length ≤ maxChars) :
    (UInt32.ofNat text.length).toNat = text.length :=
  UInt32.toNat_ofNat_of_lt' (by
    have hsize : UInt32.size = 2 ^ 32 := rfl
    omega)

theorem reads_string (p : Platform) (hmax : maxChars < 2 ^ 15) :
    Reads (readString p maxChars) fun text piece =>
      text.length ≤ maxChars ∧ piece = encodeString text := by
  have hrest : ∀ chars : UInt32, Reads (if maxChars < chars.toNat then refuse else do
      let size ← product 64 chars.toNat 2
      need size
      let data ← fetch (chars.toNat * 2)
      let size ← product p.sizeT chars.toNat 2
      skip size
      return textOf data) fun text piece => chars.toNat ≤ maxChars ∧
        piece.length = chars.toNat * 2 ∧ text = textOf piece := by
    intro chars
    by_cases h : maxChars < chars.toNat
    · rw [if_pos h]
      refine reads_refuse.congr fun text piece => ?_
      simp only [false_iff]
      omega
    · have hsize : chars.toNat * 2 < 2 ^ p.sizeT := by
        cases p <;> simp only [Platform.sizeT] <;> omega
      rw [if_neg h, product_eq (by omega), product_eq hsize]
      refine (reads_block (chars.toNat * 2) textOf).congr fun text piece => ?_
      simp [Nat.not_lt.1 h]
  refine (reads_bind reads_dword fun chars _ _ => hrest chars).congr
    fun text piece => ?_
  constructor
  · rintro ⟨chars, _, second, rfl, ⟨hle, hlength, rfl⟩, rfl⟩
    obtain ⟨hcount, hbytes⟩ := textBytes_textOf hlength
    rw [encodeString, hcount, UInt32.ofNat_toNat, hbytes]
    exact ⟨hle, rfl⟩
  · rintro ⟨hle, rfl⟩
    have hchars := toNat_ofNat_length hmax hle
    refine ⟨UInt32.ofNat text.length, _, textBytes text, rfl, ⟨?_, ?_, ?_⟩, rfl⟩
    · rwa [hchars]
    · rw [hchars, textBytes_length]
    · rw [textOf_textBytes]

theorem reads_targetChars (p : Platform) :
    Reads (readString p maxTargetChars) fun text piece =>
      text.length ≤ maxTargetChars ∧ piece = encodeString text :=
  reads_string p (by decide)

theorem flags_iff (flags : UInt32) :
    flags &&& ~~~(launchElevated ||| launchPackaged ||| launchFromShortcut) = 0 ↔
      ∃ elevated packaged shortcut, flags = launchFlags elevated packaged shortcut := by
  constructor
  · intro h
    have hbits : flags &&& 7 = flags := by
      apply UInt32.toBitVec_inj.1
      ext i hi
      have hbit := congrArg (fun value : UInt32 => value.toBitVec[i]) h
      have hmask : launchElevated ||| launchPackaged ||| launchFromShortcut = 7 := rfl
      rw [hmask] at hbit
      simp only [UInt32.toBitVec_and, UInt32.toBitVec_not, BitVec.getElem_and,
        BitVec.getElem_not] at hbit ⊢
      cases hflag : flags.toBitVec[i] <;> simp_all
    have hlt : flags.toNat < 8 := by
      rw [← hbits, UInt32.toNat_and]
      exact Nat.lt_succ_of_le Nat.and_le_right
    have hall : ∀ n < 8, ∃ elevated packaged shortcut,
        UInt32.ofNat n = launchFlags elevated packaged shortcut := by
      decide
    obtain ⟨elevated, packaged, shortcut, hflags⟩ := hall flags.toNat hlt
    exact ⟨elevated, packaged, shortcut, by rw [← hflags, UInt32.ofNat_toNat]⟩
  · rintro ⟨elevated, packaged, shortcut, rfl⟩
    cases elevated <;> cases packaged <;> cases shortcut <;> decide

theorem launchFlags_elevated (elevated packaged shortcut : Bool) :
    decide (launchFlags elevated packaged shortcut &&& launchElevated ≠ 0) =
      elevated := by
  cases elevated <;> cases packaged <;> cases shortcut <;> decide

theorem launchFlags_packaged (elevated packaged shortcut : Bool) :
    decide (launchFlags elevated packaged shortcut &&& launchPackaged ≠ 0) =
      packaged := by
  cases elevated <;> cases packaged <;> cases shortcut <;> decide

theorem launchFlags_shortcut (elevated packaged shortcut : Bool) :
    decide (launchFlags elevated packaged shortcut &&& launchFromShortcut ≠ 0) =
      shortcut := by
  cases elevated <;> cases packaged <;> cases shortcut <;> decide

theorem reads_extension (p : Platform) (options : AutomationOptions) :
    Reads (readExtension p options) fun result piece =>
      ∃ e : Extension, e.fits ∧ piece = e.bytes ∧ result = e.apply options := by
  have hflags : ∀ (initialArguments workingDirectory applicationName : Text)
      (flags : UInt32), Reads
      (if flags &&& ~~~(launchElevated ||| launchPackaged ||| launchFromShortcut) ≠ 0 then
        refuse
      else (pure { options with
        initialArguments := initialArguments
        workingDirectory := workingDirectory
        applicationName := applicationName
        elevated := flags &&& launchElevated ≠ 0
        packaged := flags &&& launchPackaged ≠ 0
        shortcut := flags &&& launchFromShortcut ≠ 0 } : Reader AutomationOptions))
      fun result piece => ∃ elevated packaged shortcut,
        flags = launchFlags elevated packaged shortcut ∧ piece = [] ∧
        result = Extension.apply ⟨initialArguments, workingDirectory, applicationName,
          elevated, packaged, shortcut⟩ options := by
    intro initialArguments workingDirectory applicationName flags
    by_cases h : flags &&&
        ~~~(launchElevated ||| launchPackaged ||| launchFromShortcut) = 0
    · rw [if_neg (not_not.2 h)]
      obtain ⟨elevated, packaged, shortcut, rfl⟩ := (flags_iff flags).1 h
      refine (reads_pure _).congr fun result piece => ?_
      simp only [launchFlags_elevated, launchFlags_packaged, launchFlags_shortcut]
      constructor
      · rintro ⟨rfl, rfl⟩
        exact ⟨elevated, packaged, shortcut, rfl, rfl, rfl⟩
      · rintro ⟨elevated', packaged', shortcut', hsame, rfl, rfl⟩
        have helevated := launchFlags_elevated elevated packaged shortcut
        have hpackaged := launchFlags_packaged elevated packaged shortcut
        have hshortcut := launchFlags_shortcut elevated packaged shortcut
        rw [hsame, launchFlags_elevated] at helevated
        rw [hsame, launchFlags_packaged] at hpackaged
        rw [hsame, launchFlags_shortcut] at hshortcut
        subst helevated hpackaged hshortcut
        exact ⟨rfl, rfl⟩
    · rw [if_pos h]
      refine reads_refuse.congr fun result piece => ?_
      simp only [false_iff]
      rintro ⟨elevated, packaged, shortcut, hsame, -⟩
      exact h ((flags_iff flags).2 ⟨elevated, packaged, shortcut, hsame⟩)
  refine (reads_bind (reads_targetChars p) fun initialArguments _ _ =>
    reads_bind (reads_targetChars p) fun workingDirectory _ _ =>
      reads_bind (reads_targetChars p) fun applicationName _ _ =>
        reads_bind reads_dword fun flags _ _ =>
          hflags initialArguments workingDirectory applicationName flags).congr
    fun result piece => ?_
  constructor
  · rintro ⟨initialArguments, _, _, ⟨hinitial, rfl⟩, ⟨workingDirectory, _, _,
      ⟨hdirectory, rfl⟩, ⟨applicationName, _, _, ⟨hname, rfl⟩, ⟨_, _, _, rfl,
      ⟨elevated, packaged, shortcut, rfl, rfl, rfl⟩, rfl⟩, rfl⟩, rfl⟩, rfl⟩
    exact ⟨⟨initialArguments, workingDirectory, applicationName, elevated, packaged,
      shortcut⟩, ⟨hinitial, hdirectory, hname⟩, by simp [Extension.bytes], rfl⟩
  · rintro ⟨⟨initialArguments, workingDirectory, applicationName, elevated, packaged,
      shortcut⟩, ⟨hinitial, hdirectory, hname⟩, rfl, rfl⟩
    exact ⟨initialArguments, _, _, ⟨hinitial, rfl⟩, ⟨workingDirectory, _, _,
      ⟨hdirectory, rfl⟩, ⟨applicationName, _, _, ⟨hname, rfl⟩, ⟨_, _, [], rfl,
      ⟨elevated, packaged, shortcut, rfl, rfl, rfl⟩, rfl⟩, rfl⟩, rfl⟩,
      by simp [Extension.bytes]⟩

structure Agrees (header : CommandHeader) (c : Content) : Prop where
  profileChars : header.profileChars = UInt32.ofNat c.profileName.length
  targetChars : header.targetChars = UInt32.ofNat c.targetPath.length
  argumentCount : c.targetArguments.length = header.argumentCount.toNat
  version : c.extension.isSome = true ↔ header.version = commandVersion

def plainOptions (profileName targetPath : Text) (targetArguments : List Text) :
    AutomationOptions :=
  { AutomationOptions.empty with
    profileName := profileName
    targetPath := targetPath
    targetArguments := targetArguments }

theorem reads_versions (p : Platform) (header : CommandHeader)
    (options : AutomationOptions) :
    Reads (if header.version = commandVersion then readExtension p options
      else (pure options : Reader AutomationOptions)) fun result piece =>
      ∃ extension : Option Extension, (∀ e ∈ extension, e.fits) ∧
        (extension.isSome = true ↔ header.version = commandVersion) ∧
        piece = extension.elim [] Extension.bytes ∧
        result = extension.elim options (Extension.apply · options) := by
  by_cases h : header.version = commandVersion
  · rw [if_pos h]
    refine (reads_extension p options).congr fun result piece => ?_
    constructor
    · rintro ⟨e, he, rfl, rfl⟩
      exact ⟨some e, by simpa using he, by simp [h], rfl, rfl⟩
    · rintro ⟨extension, hfits, hsome, rfl, rfl⟩
      obtain ⟨e, rfl⟩ := Option.isSome_iff_exists.1 (hsome.2 h)
      exact ⟨e, hfits e rfl, rfl, rfl⟩
  · rw [if_neg h]
    refine (reads_pure options).congr fun result piece => ?_
    constructor
    · rintro ⟨rfl, rfl⟩
      exact ⟨none, by simp, by simp [h], rfl, rfl⟩
    · rintro ⟨extension, -, hsome, rfl, rfl⟩
      obtain rfl : extension = none := by
        rw [← Option.not_isSome_iff_eq_none, hsome]
        exact h
      exact ⟨rfl, rfl⟩

theorem reads_body (p : Platform) (header : CommandHeader) :
    Reads (readBody p header) fun options piece => ∃ c : Content,
      c.fits ∧ Agrees header c ∧ piece = c.body ∧ options = c.options := by
  have harguments : ∀ profileName targetPath : Text, Reads
      (if header.profileChars ≠ UInt32.ofNat profileName.length ∨
          header.targetChars ≠ UInt32.ofNat targetPath.length then refuse
        else do
          let targetArguments ←
            many (readString p maxTargetChars) header.argumentCount.toNat
          let options := plainOptions profileName targetPath targetArguments
          if header.version = commandVersion then readExtension p options
          else return options)
      fun options piece => (header.profileChars = UInt32.ofNat profileName.length ∧
        header.targetChars = UInt32.ofNat targetPath.length) ∧
        ∃ (targetArguments : List Text) (extension : Option Extension),
          targetArguments.length = header.argumentCount.toNat ∧
          (∀ argument ∈ targetArguments, argument.length ≤ maxTargetChars) ∧
          (∀ e ∈ extension, e.fits) ∧
          (extension.isSome = true ↔ header.version = commandVersion) ∧
          piece = targetArguments.flatMap encodeString ++
            extension.elim [] Extension.bytes ∧
          options = Content.options
            ⟨profileName, targetPath, targetArguments, extension⟩ := by
    intro profileName targetPath
    by_cases h : header.profileChars = UInt32.ofNat profileName.length ∧
        header.targetChars = UInt32.ofNat targetPath.length
    · rw [if_neg (by simp [h.1, h.2])]
      refine (reads_bind (reads_many (reads_targetChars p) header.argumentCount.toNat)
        fun targetArguments _ _ => reads_versions p header
          (plainOptions profileName targetPath targetArguments)).congr
        fun options piece => ?_
      constructor
      · rintro ⟨targetArguments, _, _, ⟨hlength, hall, rfl⟩, ⟨extension, hfits, hsome,
          rfl, rfl⟩, rfl⟩
        exact ⟨h, targetArguments, extension, hlength, hall, hfits, hsome, rfl, rfl⟩
      · rintro ⟨-, targetArguments, extension, hlength, hall, hfits, hsome, rfl, rfl⟩
        exact ⟨targetArguments, _, _, ⟨hlength, hall, rfl⟩, ⟨extension, hfits, hsome,
          rfl, rfl⟩, rfl⟩
    · rw [if_pos (by rwa [← not_and_or])]
      refine reads_refuse.congr fun options piece => ?_
      simp [h]
  refine (reads_bind (reads_string p (by decide)) fun profileName _ _ =>
    reads_bind (reads_targetChars p) fun targetPath _ _ =>
      harguments profileName targetPath).congr fun options piece => ?_
  constructor
  · rintro ⟨profileName, _, _, ⟨hprofile, rfl⟩, ⟨targetPath, _, _, ⟨htarget, rfl⟩,
      ⟨⟨hprofileChars, htargetChars⟩, targetArguments, extension, hlength, hall, hfits,
        hsome, rfl, rfl⟩, rfl⟩, rfl⟩
    exact ⟨⟨profileName, targetPath, targetArguments, extension⟩,
      ⟨hprofile, htarget, hall, hfits⟩, ⟨hprofileChars, htargetChars, hlength, hsome⟩,
      rfl, rfl⟩
  · rintro ⟨⟨profileName, targetPath, targetArguments, extension⟩, hfits, hagrees, rfl,
      rfl⟩
    exact ⟨profileName, _, _, ⟨hfits.profileName, rfl⟩, ⟨targetPath, _, _,
      ⟨hfits.targetPath, rfl⟩, ⟨⟨hagrees.profileChars, hagrees.targetChars⟩,
        targetArguments, extension, hagrees.argumentCount, hfits.targetArguments,
        hfits.extension, hagrees.version, rfl, rfl⟩, rfl⟩, rfl⟩

theorem Content.bytes_length (c : Content) :
    c.bytes.length = headerSize + c.body.length := by
  simp [Content.bytes]

theorem ofBytes_content (c : Content) :
    CommandHeader.ofBytes (c.bytes.take headerSize) = c.header := by
  rw [Content.bytes, List.take_left' (ProfileCommand.bytes_length c.header),
    ofBytes_bytes]

theorem drop_content (c : Content) : c.bytes.drop headerSize = c.body :=
  List.drop_left' (ProfileCommand.bytes_length c.header)

theorem toNat_ofNat_le {n bound : Nat} (hbound : bound < 2 ^ 32) (h : n ≤ bound) :
    (UInt32.ofNat n).toNat = n :=
  UInt32.toNat_ofNat_of_lt' (Nat.lt_of_le_of_lt h hbound)

theorem Message.count_eq (m : Message) :
    m.header.argumentCount.toNat = m.targetArguments.length :=
  toNat_ofNat_le (by decide) m.count_le

theorem Message.totalBytes_eq (m : Message) :
    m.header.totalBytes.toNat = m.bytes.length := by
  have hsize := m.size_le
  rw [Content.bytes_length] at hsize ⊢
  exact toNat_ofNat_le (by decide) hsize

theorem Message.not_isRefused (m : Message) : ¬ isRefused m.header m.bytes.length := by
  have hcount := m.count_le
  have hsize := m.size_le
  have hversion : m.header.version = 1 ∨ m.header.version = commandVersion := by
    change (if m.extension.isSome then commandVersion else 1) = 1 ∨ _ = _
    cases h : m.extension.isSome <;> simp [Content.header, h]
  rintro (h | ⟨hfirst, hextended⟩ | h | h | h)
  · exact h rfl
  · exact hversion.elim hfirst hextended
  · exact h m.totalBytes_eq
  · omega
  · rw [m.count_eq] at h
    omega

theorem Message.agrees (m : Message) : Agrees m.header m.toContent where
  profileChars := rfl
  targetChars := rfl
  argumentCount := m.count_eq.symm
  version := by
    change _ ↔ (if m.extension.isSome then commandVersion else 1) = commandVersion
    cases m.extension.isSome <;> decide

theorem header_of_agrees {c : Content} (hsize : headerSize ≤ bytes.length)
    (h : ¬ isRefused (CommandHeader.ofBytes (bytes.take headerSize)) bytes.length)
    (hagrees : Agrees (CommandHeader.ofBytes (bytes.take headerSize)) c)
    (hbody : bytes.drop headerSize = c.body) :
    c.bytes = bytes ∧ c.targetArguments.length ≤ maxArguments ∧
      bytes.length ≤ maxCommandBytes := by
  have htake : (bytes.take headerSize).length = headerSize := by simpa using hsize
  have hlength : bytes.length = headerSize + c.body.length := by
    rw [← hbody, List.length_drop]
    omega
  have hbytes := bytes_ofBytes htake
  generalize CommandHeader.ofBytes (bytes.take headerSize) = header at h hagrees hbytes
  simp only [isRefused, not_or, not_and, not_not] at h
  obtain ⟨hmagic, hversion, htotal, hmax, hcount⟩ := h
  obtain ⟨hprofileChars, htargetChars, hargumentCount, hextended⟩ := hagrees
  have htotalBytes : header.totalBytes = UInt32.ofNat (headerSize + c.body.length) := by
    rw [← hlength, ← htotal, UInt32.ofNat_toNat]
  have harguments : header.argumentCount = UInt32.ofNat c.targetArguments.length := by
    rw [hargumentCount, UInt32.ofNat_toNat]
  have hversions : header.version = if c.extension.isSome then commandVersion else 1 := by
    by_cases hsome : c.extension.isSome = true
    · rw [if_pos hsome, hextended.1 hsome]
    · rw [if_neg hsome]
      by_contra hfirst
      exact hsome (hextended.2 (hversion hfirst))
  have hheader : c.header = header := by
    obtain ⟨magic, version, totalBytes, profileChars, targetChars, argumentCount⟩ :=
      header
    subst hmagic hversions htotalBytes hprofileChars htargetChars harguments
    rfl
  refine ⟨?_, by omega, by omega⟩
  rw [Content.bytes, hheader, hbytes, ← hbody, List.take_append_drop]

theorem parseCommand_spec (p : Platform) (bytes : Bytes) :
    ∃ result, parseCommand p bytes = .ok result ∧ ∀ options,
      result = some options ↔
        ∃ m : Message, m.bytes = bytes ∧ { m.options with enabled := true } = options := by
  rw [parseCommand]
  by_cases hsize : bytes.length < headerSize
  · refine ⟨none, if_pos hsize, fun options => ?_⟩
    simp only [reduceCtorEq, false_iff]
    rintro ⟨m, rfl, -⟩
    rw [Content.bytes_length] at hsize
    omega
  have hpeek : peek headerSize bytes 0 = .ok (some (bytes.take headerSize, 0)) := by
    simp [peek, Nat.not_lt.1 hsize]
  rw [if_neg hsize, hpeek]
  by_cases hrefused :
      isRefused (CommandHeader.ofBytes (bytes.take headerSize)) bytes.length
  · refine ⟨none, if_pos hrefused, fun options => ?_⟩
    simp only [reduceCtorEq, false_iff]
    rintro ⟨m, rfl, -⟩
    rw [ofBytes_content] at hrefused
    exact m.not_isRefused hrefused
  obtain ⟨out, hout, hvalue⟩ := reads_body p
    (CommandHeader.ofBytes (bytes.take headerSize)) bytes headerSize (Nat.not_lt.1 hsize)
  have haccept : ∀ options, out = some (options, bytes.length) ↔
      ∃ m : Message, m.bytes = bytes ∧ m.options = options := by
    intro options
    rw [hvalue]
    constructor
    · rintro ⟨piece, ⟨c, hfits, hagrees, rfl, rfl⟩, -, hdrop⟩
      rw [List.drop_length, List.append_nil] at hdrop
      obtain ⟨hbytes, hcount, hmax⟩ :=
        header_of_agrees (Nat.not_lt.1 hsize) hrefused hagrees hdrop
      exact ⟨⟨c, hfits, hcount, by rwa [hbytes]⟩, hbytes, rfl⟩
    · rintro ⟨m, rfl, rfl⟩
      refine ⟨m.body, ⟨m.toContent, m.fits, ?_, rfl, rfl⟩, Nat.le_refl _, ?_⟩
      · rw [ofBytes_content]
        exact m.agrees
      · rw [drop_content, List.drop_length, List.append_nil]
  simp only [if_neg hrefused, hout]
  cases out with
  | none =>
    refine ⟨none, rfl, fun options => ?_⟩
    simp only [reduceCtorEq, false_iff]
    rintro ⟨m, hbytes, -⟩
    simpa using (haccept m.options).2 ⟨m, hbytes, rfl⟩
  | some value =>
    obtain ⟨options, cursor⟩ := value
    by_cases hcursor : cursor = bytes.length
    · refine ⟨some { options with enabled := true }, by simp [hcursor], fun result => ?_⟩
      subst hcursor
      simp only [Option.some.injEq]
      constructor
      · rintro rfl
        obtain ⟨m, hbytes, rfl⟩ := (haccept options).1 rfl
        exact ⟨m, hbytes, rfl⟩
      · rintro ⟨m, hbytes, rfl⟩
        have hsame := (haccept m.options).2 ⟨m, hbytes, rfl⟩
        simp only [Option.some.injEq, Prod.mk.injEq, and_true] at hsame
        rw [hsame]
    · refine ⟨none, by simp [hcursor], fun result => ?_⟩
      simp only [reduceCtorEq, false_iff]
      rintro ⟨m, hbytes, -⟩
      have hsame := (haccept m.options).2 ⟨m, hbytes, rfl⟩
      simp only [Option.some.injEq, Prod.mk.injEq] at hsame
      exact hcursor hsame.2

theorem of_appendString {result : Bytes} {value : Text}
    (h : appendString bytes value maxChars = some result) :
    value.length ≤ maxChars ∧ result = bytes ++ encodeString value := by
  simp only [appendString] at h
  split at h
  · simp at h
  · split at h
    · cases h
      exact ⟨by omega, by simp [appendDword, encodeString]⟩
    · simp at h

theorem of_appendStrings {result : Bytes} {values : List Text}
    (h : values.foldlM (fun bytes value => appendString bytes value maxChars) bytes =
      some result) :
    (∀ value ∈ values, value.length ≤ maxChars) ∧
      result = bytes ++ values.flatMap encodeString := by
  induction values generalizing bytes with
  | nil =>
    cases h
    simp
  | cons value values ih =>
    rw [List.foldlM_cons] at h
    obtain ⟨middle, hfirst, hrest⟩ := Option.bind_eq_some_iff.1 h
    obtain ⟨hle, rfl⟩ := of_appendString hfirst
    obtain ⟨hall, rfl⟩ := ih hrest
    exact ⟨List.forall_mem_cons.2 ⟨hle, hall⟩, by simp⟩

def contentOf (options : AutomationOptions) : Content where
  profileName := options.profileName
  targetPath := options.targetPath
  targetArguments := options.targetArguments
  extension := if isExtended options then
    some ⟨options.initialArguments, options.workingDirectory, options.applicationName,
      options.elevated, options.packaged, options.shortcut⟩ else none

theorem of_appendExtension {options : AutomationOptions} {result : Bytes}
    (h : appendExtension options bytes = some result) :
    (∀ e ∈ (contentOf options).extension, e.fits) ∧
      result = bytes ++ (contentOf options).extension.elim [] Extension.bytes := by
  by_cases hextended : isExtended options = true
  · simp only [appendExtension, hextended, if_true, Option.bind_eq_bind,
      Option.bind_eq_some_iff, Option.some.injEq] at h
    obtain ⟨_, hinitial, _, hdirectory, _, hname, rfl⟩ := h
    obtain ⟨hinitialLe, rfl⟩ := of_appendString hinitial
    obtain ⟨hdirectoryLe, rfl⟩ := of_appendString hdirectory
    obtain ⟨hnameLe, rfl⟩ := of_appendString hname
    refine ⟨?_, by simp [contentOf, hextended, Extension.bytes, appendDword]⟩
    intro e he
    simp only [contentOf, hextended, if_true, Option.mem_some_iff] at he
    subst he
    exact ⟨hinitialLe, hdirectoryLe, hnameLe⟩
  · simp only [appendExtension, hextended] at h
    cases h
    simp [contentOf, hextended]

def finish (options : AutomationOptions) (bytes : Bytes) : Option Bytes :=
  let header : CommandHeader :=
    { (contentOf options).header with totalBytes := UInt32.ofNat bytes.length }
  let bytes := header.bytes ++ bytes.drop headerSize
  if bytes.length ≤ maxCommandBytes then some bytes else none

private theorem serializeCommand_eq (options : AutomationOptions) :
    serializeCommand options =
      if maxArguments < options.targetArguments.length then none
      else
        (appendString (List.replicate headerSize 0) options.profileName
          maxProfileChars).bind fun bytes =>
        (appendString bytes options.targetPath maxTargetChars).bind fun bytes =>
        (options.targetArguments.foldlM
          (fun bytes argument => appendString bytes argument maxTargetChars) bytes).bind
          fun bytes => (appendExtension options bytes).bind (finish options) := by
  by_cases hextended : isExtended options = true <;>
    simp [serializeCommand, appendExtension, finish, contentOf, Content.header,
      hextended, Option.bind_assoc]

theorem serializeCommand_message {options : AutomationOptions}
    (h : serializeCommand options = some bytes) :
    ∃ m : Message, m.bytes = bytes ∧ m.toContent = contentOf options := by
  rw [serializeCommand_eq] at h
  by_cases hcount : maxArguments < options.targetArguments.length
  · simp [hcount] at h
  rw [if_neg hcount] at h
  simp only [Option.bind_eq_some_iff] at h
  obtain ⟨_, hprofile, _, htarget, _, harguments, _, hextension, hfinish⟩ := h
  obtain ⟨hprofileLe, rfl⟩ := of_appendString hprofile
  obtain ⟨htargetLe, rfl⟩ := of_appendString htarget
  obtain ⟨hall, rfl⟩ := of_appendStrings harguments
  obtain ⟨hfits, rfl⟩ := of_appendExtension hextension
  have hbody : List.replicate headerSize 0 ++ encodeString options.profileName ++
      encodeString options.targetPath ++ options.targetArguments.flatMap encodeString ++
      (contentOf options).extension.elim [] Extension.bytes =
        List.replicate headerSize 0 ++ (contentOf options).body := by
    simp [Content.body, contentOf]
  rw [hbody] at hfinish
  have hbytes : finish options (List.replicate headerSize 0 ++ (contentOf options).body) =
      if (contentOf options).bytes.length ≤ maxCommandBytes then
        some (contentOf options).bytes else none := by
    simp [finish, Content.bytes, Content.header, List.drop_left']
  rw [hbytes] at hfinish
  split at hfinish
  · next hsize =>
      cases hfinish
      exact ⟨⟨contentOf options, ⟨hprofileLe, htargetLe, hall, hfits⟩,
        Nat.not_lt.1 hcount, hsize⟩, rfl, rfl⟩
  · simp at hfinish

def handedOver (options : AutomationOptions) : AutomationOptions :=
  { options with enabled := true, showHelp := false, bootstrapEventName := [] }

theorem options_contentOf (options : AutomationOptions) :
    { (contentOf options).options with enabled := true } = handedOver options := by
  by_cases h : isExtended options = true
  · simp [contentOf, h, Content.options, Extension.apply, handedOver,
      AutomationOptions.empty]
  · have hplain : isExtended options = false := by simpa using h
    simp only [isExtended, Bool.or_eq_false_iff, decide_eq_false_iff_not, ne_eq,
      not_not] at hplain
    simp [contentOf, h, Content.options, handedOver, AutomationOptions.empty, hplain]

/-- What is written is read again, no message causes a fault, and exactly the
well-formed messages are accepted. -/
theorem profile_command_wire (p : Platform) :
    (∀ (options : AutomationOptions) (bytes : Bytes),
      serializeCommand options = some bytes →
      parseCommand p bytes = .ok (some (handedOver options))) ∧
    (∀ bytes : Bytes, ∃ result, parseCommand p bytes = .ok result) ∧
    ∀ (bytes : Bytes) (options : AutomationOptions),
      parseCommand p bytes = .ok (some options) ↔
        ∃ m : Message, m.bytes = bytes ∧
          { m.options with enabled := true } = options := by
  have hiff : ∀ (bytes : Bytes) (options : AutomationOptions),
      parseCommand p bytes = .ok (some options) ↔
        ∃ m : Message, m.bytes = bytes ∧
          { m.options with enabled := true } = options := by
    intro bytes options
    obtain ⟨result, hresult, hvalue⟩ := parseCommand_spec p bytes
    rw [hresult, ← hvalue, Except.ok.injEq]
  refine ⟨fun options bytes h => ?_, fun bytes => ?_, hiff⟩
  · obtain ⟨m, hbytes, hcontent⟩ := serializeCommand_message h
    refine (hiff bytes _).2 ⟨m, hbytes, ?_⟩
    rw [hcontent, options_contentOf]
  · obtain ⟨result, hresult, -⟩ := parseCommand_spec p bytes
    exact ⟨result, hresult⟩

def sampleOptions : AutomationOptions :=
  { AutomationOptions.empty with
    profileName := wide "a"
    targetPath := wide "b.exe"
    targetArguments := [[], wide "c"]
    packaged := true }

theorem profile_command_sample :
    parseCommand .x64 (contentOf sampleOptions).bytes =
      .ok (some (handedOver sampleOptions)) :=
  (profile_command_wire .x64).1 sampleOptions _ (by decide)

end ProxyLane.App.ProfileCommand
