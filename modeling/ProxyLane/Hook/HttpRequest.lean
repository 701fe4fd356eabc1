import ProxyLane.Hook.HttpConnect
import Mathlib.Data.List.TakeWhile

/-!
# What an HTTP proxy reads

The request is one request line and header fields of one line each, if the
credentials do not make the encoder end a line early or add a character.
This file finds the lengths for which they do not.
-/

namespace ProxyLane.Hook.HttpConnect

open ProxyLane.Foundation Alphabet
open ProxyHandshake (ProxyType cString)

/-! ## The encoder and the standard text -/

variable {n : Nat}

theorem and_high_four (h : n < 256) : (n &&& 0xF0) >>> 4 = n / 16 := by
  rw [Nat.shiftRight_and_distrib, shiftRight_four]
  have hmask : 0xF0 >>> 4 = 0x0F := rfl
  rw [hmask, and_fifteen]
  omega

theorem and_high_two (h : n < 256) : (n &&& 0xC0) >>> 6 = n / 64 := by
  rw [Nat.shiftRight_and_distrib, shiftRight_six]
  have hmask : 0xC0 >>> 6 = 0x03 := rfl
  rw [hmask, and_three]
  omega

def ending (n : Nat) : Bytes := if n % 3 = 0 then [61] else padding n

theorem ending_add_three (n : Nat) : ending (n + 1 + 1 + 1) = ending n := by
  have hmod : (n + 1 + 1 + 1) % 3 = n % 3 := by omega
  simp only [ending, padding, hmod]

def Unfolded (written n : Nat) : Prop :=
  ∀ k, 1 ≤ k → k ≤ n / 3 → (written + 4 * k) % 72 ≠ 0

theorem unfolded_short (h : n < 54) : Unfolded 0 n := by
  intro k hk hle
  omega

theorem unfolded_odd {written : Nat} (h : written % 4 = 2) (n : Nat) :
    Unfolded written n := by
  intro k _ _
  omega

theorem group_eq (b1 b2 b3 : UInt8) (rest : Bytes) :
    [Alphabet.standard.char (b1.toNat >>> 2),
      Alphabet.standard.char
        (((b1.toNat &&& 0x03) <<< 4) ||| ((b2.toNat &&& 0xF0) >>> 4)),
      Alphabet.standard.char
        (((b2.toNat &&& 0x0F) <<< 2) ||| ((b3.toNat &&& 0xC0) >>> 6)),
      Alphabet.standard.char (b3.toNat &&& 0x3F)] ++
      Alphabet.standard.encode rest =
      Alphabet.standard.encode (b1 :: b2 :: b3 :: rest) := by
  rw [and_high_four b2.toNat_lt, and_high_two b3.toNat_lt, and_sixtyThree,
    ← shiftRight_four, ← shiftRight_six, join_sextet b2.toNat_lt,
    join_sextet_third b3.toNat_lt, shiftRight_two]
  rfl

variable {source : Bytes}

theorem encodeFrom_unfolded {written : Nat} (h : Unfolded written source.length) :
    encodeFrom source written =
      Alphabet.standard.encode source ++ ending source.length := by
  fun_induction encodeFrom source written with
  | case1 byte1 byte2 byte3 rest written b1 b2 b3 group hfold ih =>
    have hnot := h 1 (Nat.le_refl _) (by simp only [List.length_cons]; omega)
    exact absurd hfold hnot
  | case2 byte1 byte2 byte3 rest written b1 b2 b3 group hfold ih =>
    have hrest : Unfolded (written + 4) rest.length := by
      intro k hk hle
      have hnext := h (k + 1) (by omega) (by simp only [List.length_cons]; omega)
      rwa [show written + 4 * (k + 1) = written + 4 + 4 * k by omega] at hnext
    rw [ih hrest, ← group_eq, List.append_assoc]
    simp only [List.length_cons, ending_add_three]
    rfl
  | case3 byte1 byte2 written b1 b2 =>
    simp only [b1, b2, and_high_four byte2.toNat_lt, ← shiftRight_four,
      join_sextet byte2.toNat_lt]
    simp [Alphabet.encode, sextets, ending, padding, and_fifteen,
      shiftLeft_two, shiftRight_two, shiftRight_four]
  | case4 byte1 written b1 =>
    simp [b1, Alphabet.encode, sextets, ending, padding, and_three,
      shiftLeft_four, shiftRight_two]
  | case5 written => rfl

theorem encodeFrom_folded (first rest : Bytes) (written : Nat)
    (hgroups : first.length % 3 = 0) (hpos : first ≠ [])
    (hbefore : ∀ k, 1 ≤ k → k < first.length / 3 → (written + 4 * k) % 72 ≠ 0)
    (hfold : (written + 4 * (first.length / 3)) % 72 = 0) :
    encodeFrom (first ++ rest) written =
      Alphabet.standard.encode first ++ crlf ++
        encodeFrom rest (written + 4 * (first.length / 3) + 2) := by
  induction first using sextets.induct generalizing written with
  | case1 b1 b2 b3 tail ih =>
    have hlength : (b1 :: b2 :: b3 :: tail).length / 3 = tail.length / 3 + 1 := by
      simp only [List.length_cons]
      omega
    rw [hlength] at hbefore hfold ⊢
    cases tail with
    | nil =>
      simp only [List.length_nil, Nat.zero_div, Nat.zero_add, Nat.mul_one]
        at hfold ⊢
      simp only [List.cons_append, List.nil_append, encodeFrom, hfold,
        if_true, ← group_eq]
      rfl
    | cons b tail =>
      have hmore : 1 ≤ (b :: tail).length / 3 := by
        simp only [List.length_cons] at hgroups ⊢
        omega
      have hopen := hbefore 1 (Nat.le_refl _) (by omega)
      have hrest := ih (written + 4) (by
          simp only [List.length_cons] at hgroups ⊢
          omega)
        (by simp)
        (fun k hk hlt => by
          have hnext := hbefore (k + 1) (by omega) (by omega)
          rwa [show written + 4 * (k + 1) = written + 4 + 4 * k by omega]
            at hnext)
        (by rwa [show written + 4 * ((b :: tail).length / 3 + 1) =
          written + 4 + 4 * ((b :: tail).length / 3) by omega] at hfold)
      rw [show written + 4 + 4 * ((b :: tail).length / 3) + 2 =
        written + 4 * ((b :: tail).length / 3 + 1) + 2 by omega] at hrest
      rw [← group_eq, List.append_assoc, List.append_assoc,
        ← List.append_assoc (Alphabet.encode _ _), ← hrest]
      simp only [List.cons_append, encodeFrom, if_neg hopen, List.nil_append]
  | case2 b1 b2 => simp at hgroups
  | case3 b1 => simp at hgroups
  | case4 => exact absurd rfl hpos

theorem encode_short (h : source.length < 54) :
    encode source = Alphabet.standard.encode source ++ ending source.length :=
  encodeFrom_unfolded (unfolded_short h)

theorem encode_long (h : 54 ≤ source.length) :
    encode source =
      Alphabet.standard.encode (source.take 54) ++ crlf ++
        (Alphabet.standard.encode (source.drop 54) ++
          ending (source.drop 54).length) := by
  have hfirst : (source.take 54).length = 54 := by simp [h]
  have hfolded := encodeFrom_folded (source.take 54) (source.drop 54) 0
    (by simp [hfirst])
    (by intro hnil; simp [hnil] at hfirst)
    (by simp only [hfirst]; intro k _ _; omega) (by simp [hfirst])
  rw [List.take_append_drop, hfirst] at hfolded
  rw [encode, hfolded, encodeFrom_unfolded (unfolded_odd (by omega) _)]

/-- The lines that a line end closes, behind the part of a line read so far,
and what is behind the last of them. -/
def cutFrom (line : Bytes) : Bytes → List Bytes × Bytes
  | first :: second :: rest =>
    if first = 13 ∧ second = 10 then
      (line :: (cutFrom [] rest).1, (cutFrom [] rest).2)
    else cutFrom (line ++ [first]) (second :: rest)
  | [last] => ([], line ++ [last])
  | [] => ([], line)

def cutLines (text : Bytes) : List Bytes × Bytes := cutFrom [] text

def joinLines (lines : List Bytes) : Bytes := lines.flatMap (· ++ crlf)

def OneLine (line : Bytes) : Prop := 13 ∉ line ∧ 10 ∉ line

instance (line : Bytes) : Decidable (OneLine line) :=
  inferInstanceAs (Decidable (_ ∧ _))

theorem cutFrom_line {line : Bytes} (h : 13 ∉ line) (read rest : Bytes) :
    cutFrom read (line ++ crlf ++ rest) =
      ((read ++ line) :: (cutFrom [] rest).1, (cutFrom [] rest).2) := by
  induction line generalizing read with
  | nil => simp [crlf, cutFrom]
  | cons c line ih =>
    rw [List.mem_cons, not_or] at h
    have hne : ¬ c = 13 := fun heq => h.1 heq.symm
    have hrest := ih h.2 (read ++ [c])
    cases line with
    | nil => simp [crlf, cutFrom, hne]
    | cons d line =>
      simp only [List.cons_append, cutFrom, hne, false_and, if_false]
        at hrest ⊢
      simpa using hrest

theorem cutLines_joinLines {lines : List Bytes}
    (h : ∀ line ∈ lines, OneLine line) (rest : Bytes) :
    cutLines (joinLines lines ++ rest) =
      (lines ++ (cutLines rest).1, (cutLines rest).2) := by
  induction lines with
  | nil => rfl
  | cons line lines ih =>
    rw [List.forall_mem_cons] at h
    rw [joinLines, List.flatMap_cons, List.append_assoc, cutLines,
      cutFrom_line h.1.1]
    have hrest := ih h.2
    rw [cutLines, joinLines] at hrest
    simp [hrest]

/-! ## The peer and its authority -/

structure HostName where
  text : Bytes
  ne_nil : text ≠ []
  chars : ∀ c ∈ text, 32 < c ∧ c ≠ 127 ∧ c ≠ 58

inductive Peer where
  | ipv4 (addr : InAddr)
  | ipv6 (addr : In6Addr)
  | name (host : HostName)

def Peer.connect (net : Net) (port : UInt16) : Peer → Option Layer
  | .ipv4 addr => connectAddress (.inet addr port)
  | .ipv6 addr => connectAddress (.inet6 addr port)
  | .name host => connectHost net host.text port

def Peer.authority (net : Net) (port : UInt16) : Peer → Option Bytes
  | .ipv4 addr => some (inetNtoa addr ++ ascii ":" ++ decimal port.toNat)
  | .ipv6 addr =>
    (net.inetNtop6 addr).map fun text =>
      ascii "[" ++ text ++ ascii "]" ++ ascii ":" ++ decimal port.toNat
  | .name host => some (host.text ++ ascii ":" ++ decimal port.toNat)

def queued (net : Net) (data : ProxyData) (peer : Peer) (port : UInt16) :
    Option Bytes :=
  (peer.connect net port).bind (request net data)

def Net.Numeric (net : Net) : Prop :=
  ∀ addr text, net.inetNtop6 addr = some text →
    ∀ c ∈ text, c ∈ ascii "0123456789abcdefABCDEF:."

variable {layer : Layer}

theorem connectAddress_eq {address : SockAddr}
    (h : connectAddress address = some layer) :
    layer = ⟨none, address, address.getdwIP, address.getPort⟩ := by
  unfold connectAddress at h
  split at h
  · cases h
  · split at h
    · cases h
    · simpa using h.symm

theorem authority_of_connect {net : Net} {port : UInt16} {peer : Peer}
    (h : peer.connect net port = some layer) {host : Bytes}
    (hhost : peerText net layer = some host) :
    peer.authority net port = some (authority layer host) := by
  cases peer with
  | ipv4 addr =>
    rw [connectAddress_eq h] at hhost ⊢
    simp only [peerText, SockAddr.getdwIP, Option.some.injEq] at hhost
    simp [Peer.authority, authority, ← hhost, SockAddr.isIPv6,
      SockAddr.family, SockAddr.getPort]
  | ipv6 addr =>
    rw [connectAddress_eq h] at hhost ⊢
    simp only [peerText] at hhost
    simp [Peer.authority, authority, hhost, SockAddr.isIPv6,
      SockAddr.family, SockAddr.getPort]
  | name name =>
    obtain ⟨first, rest, htext⟩ := List.exists_cons_of_ne_nil name.ne_nil
    simp only [Peer.connect, connectHost] at h
    split at h
    · cases h
      simp only [peerText, htext, Option.some.injEq] at hhost
      simp [Peer.authority, authority, ← hhost, htext, SockAddr.isIPv6,
        SockAddr.family]
    · simp only [Option.map_eq_some_iff] at h
      obtain ⟨base, hbase, rfl⟩ := h
      rw [connectAddress_eq hbase] at hhost ⊢
      simp only [peerText, htext, Option.some.injEq] at hhost
      simp [Peer.authority, authority, ← hhost, htext, SockAddr.isIPv6,
        SockAddr.family, SockAddr.getPort]

theorem decimal_digit {c : UInt8} (h : c ∈ decimal n) :
    48 ≤ c ∧ c ≤ 57 := by
  simp only [decimal, List.mem_map] at h
  obtain ⟨d, hd, rfl⟩ := h
  have hdigit := Nat.isDigit_of_mem_toDigits (by decide) (by decide) hd
  simp only [Char.isDigit, Bool.and_eq_true, decide_eq_true_eq] at hdigit
  obtain ⟨hlow, hhigh⟩ := hdigit
  have hl : 48 ≤ d.toNat := by simpa using UInt32.le_iff_toNat_le.1 hlow
  have hh : d.toNat ≤ 57 := by simpa using UInt32.le_iff_toNat_le.1 hhigh
  simp only [UInt8.le_iff_toNat_le, UInt8.toNat_ofNat', UInt8.reduceToNat]
  omega

theorem oneLine_append {left right : Bytes} :
    OneLine (left ++ right) ↔ OneLine left ∧ OneLine right := by
  simp only [OneLine, List.mem_append, not_or]
  tauto

theorem oneLine_of_ge {line : Bytes} (h : ∀ c ∈ line, 32 ≤ c) : OneLine line :=
  ⟨fun hc => absurd (h 13 hc) (by decide), fun hc => absurd (h 10 hc) (by decide)⟩

theorem oneLine_decimal (n : Nat) : OneLine (decimal n) :=
  oneLine_of_ge fun _ hc => UInt8.le_trans (by decide) (decimal_digit hc).1

variable {target : Bytes}

theorem oneLine_authority {net : Net} (hnet : net.Numeric) {port : UInt16}
    {peer : Peer}
    (h : peer.authority net port = some target) : OneLine target := by
  have hport := oneLine_decimal port.toNat
  have hcolon : OneLine (ascii ":") := by decide
  cases peer with
  | ipv4 addr =>
    simp only [Peer.authority, Option.some.injEq] at h
    have hdot : OneLine (ascii ".") := by decide
    simp only [← h, inetNtoa, oneLine_append, oneLine_decimal, hdot, hcolon,
      and_self]
  | ipv6 addr =>
    simp only [Peer.authority, Option.map_eq_some_iff] at h
    obtain ⟨text, htext, rfl⟩ := h
    have hnumeric : OneLine text := by
      have hall : ((ascii "0123456789abcdefABCDEF:.").all fun c => 32 ≤ c) = true := by
        decide
      exact oneLine_of_ge fun c hc => by
        simpa using List.all_eq_true.1 hall c (hnet addr text htext c hc)
    have hopen : OneLine (ascii "[") := by decide
    have hclose : OneLine (ascii "]") := by decide
    simp only [oneLine_append, hopen, hnumeric, hclose, hcolon, hport, and_self]
  | name host =>
    simp only [Peer.authority, Option.some.injEq] at h
    have hname : OneLine host.text := oneLine_of_ge fun c hc =>
      UInt8.le_of_lt (host.chars c hc).1
    simp only [← h, oneLine_append, hname, hcolon, hport, and_self]

def requestLine (data : ProxyData) (target : Bytes) : Bytes :=
  ascii "CONNECT " ++ target ++
    if data.proxyType = .http10 then ascii " HTTP/1.0" else ascii " HTTP/1.1"

def basicHeaders : List Bytes :=
  [ascii "Authorization: Basic ", ascii "Proxy-Authorization: Basic "]

def IsField (line : Bytes) : Prop :=
  ∃ name value, line = name ++ ascii ": " ++ value ∧ name ≠ [] ∧ 58 ∉ name

/-- One request line and header fields, closed by the only empty line; the
credentials are the standard text of the user name and the password. -/
structure Proper (data : ProxyData) (target text : Bytes)
    (fields : List Bytes) : Prop where
  lines : cutLines text = (requestLine data target :: fields ++ [[]], [])
  full : ∀ line ∈ requestLine data target :: fields, line ≠ [] ∧ OneLine line
  field : ∀ line ∈ fields, IsField line
  host : data.proxyType = .http11 → ascii "Host: " ++ target ∈ fields
  logon : data.useLogon = true →
    ∃ value, ascii "Proxy-Authorization: Basic " ++ value ∈ fields
  basic : ∀ header ∈ basicHeaders, ∀ value, header ++ value ∈ fields →
    Alphabet.standard.decodePadded value = some (data.user ++ ascii ":" ++ data.pass)

/-- The fields for credentials of which `first` is the first line. -/
def fieldLines (data : ProxyData) (target first : Bytes) (more : List Bytes) :
    List Bytes :=
  (if data.proxyType = .http10 then [] else [ascii "Host: " ++ target]) ++
    (if data.useLogon then
      basicHeaders.flatMap fun header => (header ++ first) :: more else []) ++
    if data.useLogon = false ∧ data.proxyType = .http10 then []
    else [ascii "Proxy-Connection: Keep-Alive"]

private theorem crlf_joinLines (lines : List Bytes) :
    crlf ++ joinLines lines = lines.flatMap (crlf ++ ·) ++ crlf := by
  induction lines with
  | nil => rfl
  | cons line lines ih =>
    rw [joinLines] at ih
    simp [joinLines, ← ih]

variable {data : ProxyData} {first : Bytes}

theorem requestText_lines {more : List Bytes}
    (h : credentials data = first ++ more.flatMap (crlf ++ ·)) (layer : Layer)
    (host : Bytes) :
    requestText data layer host =
      joinLines (requestLine data (authority layer host) ::
        fieldLines data (authority layer host) first more) ++ crlf := by
  have hbasic : ∀ header rest,
      header ++ (first ++ (more.flatMap (crlf ++ ·) ++ (crlf ++ rest))) =
        joinLines ((header ++ first) :: more) ++ rest := by
    intro header rest
    have hmore := crlf_joinLines more
    simp only [joinLines, List.flatMap_cons, List.append_assoc] at hmore ⊢
    rw [← List.append_assoc (more.flatMap _), ← hmore, List.append_assoc]
  cases hlogon : data.useLogon <;> by_cases htype : data.proxyType = .http10 <;>
    simp [requestText, hlogon, htype, requestLine, fieldLines, joinLines, h,
      basicHeaders, hbasic]

/-! ## The credentials -/

def userPass (data : ProxyData) : Bytes :=
  data.user ++ ascii ":" ++ data.pass

def Legible (text : Bytes) : Prop := ∀ c ∈ text, 32 ≤ c ∧ c ≠ 127

instance (text : Bytes) : Decidable (Legible text) :=
  inferInstanceAs (Decidable (∀ c ∈ text, _))

variable {text : Bytes}

theorem cString_legible (h : Legible text) : cString text = text := by
  unfold cString
  rw [List.takeWhile_eq_self_iff]
  intro c hc
  have hge := (h c hc).1
  have hne : c ≠ 0 := by
    rintro rfl
    exact absurd hge (by decide)
  simpa using hne

theorem credentials_fit (huser : Legible data.user)
    (hpass : Legible data.pass) (h : (userPass data).length ≤ 512) :
    credentials data = encode (userPass data) := by
  have htake : (userPass data).take 512 = userPass data :=
    List.take_of_length_le h
  simp only [credentials, cString_legible huser, cString_legible hpass]
  rw [← userPass, snprintf, if_pos h, htake]
  simp

theorem credentials_cut (huser : Legible data.user)
    (hpass : Legible data.pass) (h : 512 < (userPass data).length) :
    credentials data = [61] := by
  simp only [credentials, cString_legible huser, cString_legible hpass]
  rw [← userPass, snprintf, if_neg (by omega)]
  rfl

theorem userPass_length (data : ProxyData) :
    (userPass data).length = data.user.length + 1 + data.pass.length := by
  simp only [userPass, List.length_append]
  rfl

def CodeText (text : Bytes) : Prop :=
  ∀ c ∈ text, c ∈ Alphabet.standard.chars ∨ c = 61

theorem codeText_encode (source : Bytes) (n : Nat) :
    CodeText (Alphabet.standard.encode source ++ ending n) := by
  intro c hc
  rw [List.mem_append] at hc
  refine hc.imp mem_of_mem_encode fun hend => ?_
  unfold ending padding at hend
  split at hend
  · simpa using hend
  · exact List.eq_of_mem_replicate hend

theorem CodeText.oneLine (h : CodeText text) : OneLine text := by
  have hall : (Alphabet.standard.chars.all fun c => 32 ≤ c) = true := by decide
  refine oneLine_of_ge fun c hc => ?_
  rcases h c hc with hc | rfl
  · simpa using List.all_eq_true.1 hall c hc
  · decide

theorem CodeText.not_field (h : CodeText text) : ¬ IsField text := by
  rintro ⟨name, value, rfl, -, -⟩
  have hcolon := h 58 (by simp [ascii])
  exact absurd hcolon (by decide)

theorem encodePadded_eq (h : source.length % 3 ≠ 0) :
    Alphabet.standard.encode source ++ ending source.length =
      Alphabet.standard.encodePadded source := by
  rw [ending, if_neg h, encodePadded]

theorem ne_encodePadded (h : source.length % 3 = 0) :
    Alphabet.standard.encode source ++ ending source.length ≠
      Alphabet.standard.encodePadded source := by
  rw [ending, if_pos h, encodePadded, padding, h]
  intro heq
  simpa using congrArg List.length heq

theorem pad_ne_encodePadded (h : 512 < source.length) :
    [61] ≠ Alphabet.standard.encodePadded source := by
  intro heq
  have hlength := congrArg List.length heq
  rw [encodePadded, List.length_append, encode_length] at hlength
  unfold sextetCount at hlength
  simp only [List.length_singleton] at hlength
  omega

/-! ## The request -/

def Fits (data : ProxyData) : Prop :=
  data.useLogon = true →
    data.user.length + 1 + data.pass.length < 54 ∧
      (data.user.length + 1 + data.pass.length) % 3 ≠ 0

instance (data : ProxyData) : Decidable (Fits data) :=
  inferInstanceAs (Decidable (_ → _))

theorem full_lines {more : List Bytes} (htarget : OneLine target)
    (hfirst : data.useLogon = true → OneLine first)
    (hmore : data.useLogon = true → ∀ line ∈ more, OneLine line) :
    ∀ line ∈ requestLine data target :: fieldLines data target first more,
      OneLine line := by
  have hbasic : ∀ header ∈ basicHeaders, OneLine header := by decide
  have hline : OneLine (requestLine data target) := by
    have hconnect : OneLine (ascii "CONNECT ") := by decide
    have hversion : OneLine (if data.proxyType = .http10 then ascii " HTTP/1.0"
        else ascii " HTTP/1.1") := by split <;> decide
    simp only [requestLine, oneLine_append, hconnect, htarget, hversion, and_self]
  have hhost : OneLine (ascii "Host: ") := by decide
  have hkeep : OneLine (ascii "Proxy-Connection: Keep-Alive") := by decide
  intro line hmem
  simp only [fieldLines, List.mem_cons, List.mem_append] at hmem
  rcases hmem with rfl | (hmem | hmem) | hmem
  · exact hline
  · split at hmem
    · simp at hmem
    · rw [List.mem_singleton] at hmem
      simp only [hmem, oneLine_append, hhost, htarget, and_self]
  · split at hmem
    case isTrue hlogon =>
        obtain ⟨header, hheader, hmem⟩ := List.mem_flatMap.1 hmem
        rcases List.mem_cons.1 hmem with rfl | hmem
        · exact oneLine_append.2 ⟨hbasic header hheader, hfirst hlogon⟩
        · exact hmore hlogon line hmem
    case isFalse => simp at hmem
  · split at hmem
    · simp at hmem
    · rw [List.mem_singleton] at hmem
      exact hmem ▸ hkeep

theorem requestLine_ne_nil (data : ProxyData) (target : Bytes) :
    requestLine data target ≠ [] := by
  simp [requestLine, ascii]

theorem cutLines_request {more : List Bytes} {host : Bytes}
    (h : credentials data = first ++ more.flatMap (crlf ++ ·))
    (htarget : OneLine (authority layer host))
    (hfirst : data.useLogon = true → OneLine first)
    (hmore : data.useLogon = true → ∀ line ∈ more, OneLine line) :
    cutLines (requestText data layer host) =
      (requestLine data (authority layer host) ::
        fieldLines data (authority layer host) first more ++ [[]], []) := by
  rw [requestText_lines h, cutLines_joinLines (full_lines htarget hfirst hmore)]
  rfl

theorem credentials_pieces (huser : Legible data.user) (hpass : Legible data.pass) :
    ∃ first more, credentials data = first ++ more.flatMap (crlf ++ ·) ∧
      CodeText first ∧ (∀ line ∈ more, CodeText line) ∧
      (more ≠ [] ∨ first = [61] ∧ 512 < (userPass data).length ∨
        (userPass data).length < 54 ∧
          first = Alphabet.standard.encode (userPass data) ++
            ending (userPass data).length) ∧
      (more ≠ [] → 54 ≤ (userPass data).length) := by
  rcases Nat.lt_or_ge 512 (userPass data).length with hcut | hfit
  · refine ⟨[61], [], by simp [credentials_cut huser hpass hcut], ?_, by simp,
      .inr (.inl ⟨rfl, hcut⟩), by simp⟩
    intro c hc
    exact .inr (List.mem_singleton.1 hc)
  · rcases Nat.lt_or_ge (userPass data).length 54 with hshort | hlong
    · exact ⟨_, [], by simp [credentials_fit huser hpass hfit,
        encode_short hshort], codeText_encode _ _, by simp,
        .inr (.inr ⟨hshort, rfl⟩), by simp⟩
    · have hlines := credentials_fit huser hpass hfit
      rw [encode_long hlong] at hlines
      refine ⟨_, [_], by rw [hlines, List.flatMap_singleton, List.append_assoc],
        fun c hc => .inl (mem_of_mem_encode hc), ?_, .inl (by simp),
        fun _ => hlong⟩
      simpa using codeText_encode _ _

theorem isField_of {line : Bytes} (h : line ∈ fieldLines data target first []) :
    IsField line := by
  have hfield : ∀ name value, name ≠ [] → 58 ∉ name →
      IsField (name ++ ascii ": " ++ value) :=
    fun name value hne hcolon => ⟨name, value, rfl, hne, hcolon⟩
  simp only [fieldLines, basicHeaders, List.flatMap_cons, List.flatMap_nil,
    List.mem_append] at h
  rcases h with (h | h) | h
  · split at h
    · simp at h
    · rw [List.mem_singleton.1 h]
      exact hfield (ascii "Host") target (by decide) (by decide)
  · split at h
    · simp only [List.singleton_append, List.append_nil, List.mem_cons,
        List.not_mem_nil, or_false] at h
      rcases h with rfl | rfl
      · exact hfield (ascii "Authorization") (ascii "Basic " ++ first)
          (by decide) (by decide)
      · exact hfield (ascii "Proxy-Authorization") (ascii "Basic " ++ first)
          (by decide) (by decide)
    · simp at h
  · split at h
    · simp at h
    · rw [List.mem_singleton.1 h]
      exact hfield (ascii "Proxy-Connection") (ascii "Keep-Alive") (by decide)
        (by decide)

theorem basic_value {header value : Bytes} (hheader : header ∈ basicHeaders)
    (h : header ++ value ∈ fieldLines data target first []) :
    data.useLogon = true ∧ value = first := by
  simp only [basicHeaders, List.mem_cons, List.not_mem_nil, or_false] at hheader
  rcases hheader with rfl | rfl <;> cases hlogon : data.useLogon <;>
    by_cases htype : data.proxyType = .http10 <;>
    simp_all [fieldLines, basicHeaders, ascii]

theorem proper_requestText_iff (huser : Legible data.user)
    (hpass : Legible data.pass) {host : Bytes}
    (htarget : OneLine (authority layer host)) :
    (∃ fields, Proper data (authority layer host) (requestText data layer host)
      fields) ↔ Fits data := by
  obtain ⟨first, more, hcredentials, hfirst, hmore, hcase, hlong⟩ :=
    credentials_pieces huser hpass
  have hcut := cutLines_request hcredentials htarget (fun _ => hfirst.oneLine)
    (fun _ line hline => (hmore line hline).oneLine)
  have hfull : ∀ line ∈ requestLine data (authority layer host) ::
      fieldLines data (authority layer host) first more, OneLine line :=
    full_lines htarget (fun _ => hfirst.oneLine)
      (fun _ line hline => (hmore line hline).oneLine)
  constructor
  · rintro ⟨fields, hproper⟩ hlogon
    have hfields : fields = fieldLines data (authority layer host) first more := by
      have hlines := hproper.lines
      rw [hcut, Prod.mk.injEq, List.cons_append, List.cons_append,
        List.cons.injEq, List.append_cancel_right_eq] at hlines
      exact hlines.1.2.symm
    rw [← userPass_length]
    by_cases hone : more = []
    · subst hone
      obtain ⟨value, hvalue⟩ := hproper.logon hlogon
      have hheader : ascii "Proxy-Authorization: Basic " ∈ basicHeaders := by
        simp [basicHeaders]
      have hdecode := decodePadded_eq_some.1 (hproper.basic _ hheader value hvalue)
      rw [hfields] at hvalue
      rw [(basic_value hheader hvalue).2, ← userPass] at hdecode
      rcases hcase with hsplit | ⟨rfl, hcutoff⟩ | ⟨hshort, rfl⟩
      · exact absurd rfl hsplit
      · exact absurd hdecode (pad_ne_encodePadded hcutoff)
      · exact ⟨hshort, fun hmod => ne_encodePadded hmod hdecode⟩
    · -- a line of the credentials alone is no header field
      obtain ⟨line, rest, rfl⟩ := List.exists_cons_of_ne_nil hone
      have hmem : line ∈ fields := by
        simp [hfields, fieldLines, hlogon, basicHeaders]
      exact absurd (hproper.field line hmem) (hmore line List.mem_cons_self).not_field
  · intro hfits
    have hsame : fieldLines data (authority layer host) first more =
        fieldLines data (authority layer host) first [] := by
      cases hlogon : data.useLogon with
      | false => simp [fieldLines, hlogon]
      | true =>
        have hlt := (hfits hlogon).1
        rw [← userPass_length] at hlt
        have hnil : more = [] := by
          by_contra hne
          exact absurd (hlong hne) (by omega)
        rw [hnil]
    rw [hsame] at hcut hfull
    have hfields : ∀ line ∈ fieldLines data (authority layer host) first [],
        IsField line := fun line hline => isField_of hline
    refine ⟨_, hcut, fun line hline => ⟨?_, hfull line hline⟩, hfields, ?_, ?_, ?_⟩
    · rcases List.mem_cons.1 hline with rfl | hline
      · exact requestLine_ne_nil _ _
      · obtain ⟨name, value, rfl, hname, -⟩ := hfields line hline
        simp [hname]
    · intro htype
      simp [fieldLines, htype]
    · intro hlogon
      exact ⟨first, by simp [fieldLines, hlogon, basicHeaders]⟩
    · intro header hheader value hvalue
      obtain ⟨hlogon, rfl⟩ := basic_value hheader hvalue
      obtain ⟨hlt, hmod⟩ := hfits hlogon
      rw [← userPass_length] at hlt hmod
      refine decodePadded_eq_some.2 ?_
      rw [← userPass]
      rcases hcase with hsplit | ⟨-, hcutoff⟩ | ⟨-, rfl⟩
      · exact absurd (hlong hsplit) (by omega)
      · omega
      · exact encodePadded_eq hmod

theorem queued_eq {net : Net} {peer : Peer} {port : UInt16}
    (h : queued net data peer port = some text) :
    ∃ layer host, peer.authority net port = some (authority layer host) ∧
      text = requestText data layer host := by
  simp only [queued, Option.bind_eq_some_iff] at h
  obtain ⟨layer, hlayer, hrequest⟩ := h
  unfold request at hrequest
  split at hrequest
  case isFalse => cases hrequest
  case isTrue =>
    cases hhost : peerText net layer with
    | none => simp [hhost] at hrequest
    | some host =>
      refine ⟨layer, host, authority_of_connect hlayer hhost, ?_⟩
      by_cases hlength : (requestText data layer host).length ≤ 4096
      · simp only [hhost, snprintf, if_pos hlength, Int.toNat_natCast,
          List.take_length, Option.ite_none_left_eq_some,
          Option.some.injEq] at hrequest
        exact hrequest.2.symm
      · simp [hhost, snprintf, if_neg hlength] at hrequest

/-- A queued request is one line and header fields with the credentials in
standard form exactly if user name, colon and password are fewer than 54 bytes
and no multiple of three. -/
theorem queued_proper_iff (net : Net) (hnet : net.Numeric) (data : ProxyData)
    (huser : Legible data.user) (hpass : Legible data.pass) (peer : Peer)
    (port : UInt16) {text : Bytes}
    (h : queued net data peer port = some text) :
    (∃ target fields, peer.authority net port = some target ∧
      Proper data target text fields) ↔ Fits data := by
  obtain ⟨layer, host, htarget, rfl⟩ := queued_eq h
  rw [← proper_requestText_iff huser hpass (oneLine_authority hnet htarget)]
  constructor
  · rintro ⟨target, fields, htarget', hproper⟩
    rw [htarget, Option.some.injEq] at htarget'
    exact ⟨fields, htarget' ▸ hproper⟩
  · rintro ⟨fields, hproper⟩
    exact ⟨_, fields, htarget, hproper⟩

def sampleNet : Net where
  inetAddr := fun _ => .none
  inetNtop6 := fun addr =>
    if addr = In6Addr.loopback then some (ascii "::1") else none

theorem sampleNet_numeric : sampleNet.Numeric := by
  intro addr text h
  simp only [sampleNet, Option.ite_none_right_eq_some, Option.some.injEq] at h
  rw [← h.2]
  decide +kernel

def samplePeer : Peer :=
  .name ⟨ascii "example.org", by decide, by decide +kernel⟩

def login (user pass : String) : ProxyData :=
  ⟨.http11, true, ascii user, ascii pass⟩

theorem login_proper :
    ∃ text, queued sampleNet (login "user" "secret") samplePeer 443 = some text ∧
      ∃ target fields, samplePeer.authority sampleNet 443 = some target ∧
        Proper (login "user" "secret") target text fields := by
  have hsome : (queued sampleNet (login "user" "secret") samplePeer 443).isSome :=
    by decide +kernel
  obtain ⟨text, htext⟩ := Option.isSome_iff_exists.1 hsome
  exact ⟨text, htext, (queued_proper_iff sampleNet sampleNet_numeric _
    (by decide +kernel) (by decide +kernel) samplePeer 443 htext).2
    (by decide)⟩

theorem login_not_proper :
    ∃ text, queued sampleNet (login "user" "pass") samplePeer 443 = some text ∧
      ¬ ∃ target fields, samplePeer.authority sampleNet 443 = some target ∧
        Proper (login "user" "pass") target text fields := by
  have hsome : (queued sampleNet (login "user" "pass") samplePeer 443).isSome :=
    by decide +kernel
  obtain ⟨text, htext⟩ := Option.isSome_iff_exists.1 hsome
  refine ⟨text, htext, ?_⟩
  rintro ⟨target, fields, htarget, hproper⟩
  obtain ⟨layer, host, hauthority, rfl⟩ := queued_eq htext
  rw [hauthority, Option.some.injEq] at htarget
  have hfits := (proper_requestText_iff (by decide +kernel) (by decide +kernel)
    (oneLine_authority sampleNet_numeric hauthority)).1 ⟨fields, htarget ▸ hproper⟩
  exact absurd (hfits rfl).2 (by decide)

end ProxyLane.Hook.HttpConnect
