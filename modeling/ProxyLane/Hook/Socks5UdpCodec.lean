import Mathlib.Data.List.TakeWhile
import ProxyLane.Hook.StructInfo

/-!
# The SOCKS5 UDP codec

A datagram to a SOCKS5 relay is a header with the destination and then the
payload.  A null pointer is `none`; the octets behind a domain pointer are read
as a C string.
-/

namespace ProxyLane.Hook

open ProxyLane.Foundation

def cString (memory : Bytes) : Bytes := memory.takeWhile (· != 0)

theorem cString_of_nonzero {text : Bytes} (h : 0 ∉ text) (rest : Bytes) :
    cString (text ++ 0 :: rest) = text := by
  induction text with
  | nil => simp [cString]
  | cons b text ih =>
    simp only [List.mem_cons, not_or] at h
    have hb : b ≠ 0 := Ne.symm h.1
    simp only [cString] at ih ⊢
    simp [hb, ih h.2]

theorem cString_zero_notMem (memory : Bytes) : 0 ∉ cString memory := by
  intro h
  have hb := List.mem_takeWhile_imp h
  simp at hb

theorem cString_self {text : Bytes} (h : 0 ∉ text) : cString text = text := by
  apply List.takeWhile_eq_self_iff.2
  intro b hb
  simp only [bne_iff_ne, ne_eq]
  rintro rfl
  exact h hb

def portBytes (port : UInt16) : Bytes := beBytes 2 port.toNat

def portOf (bytes : Bytes) : UInt16 := UInt16.ofNat (beNat bytes)

@[simp] theorem portBytes_length (port : UInt16) :
    (portBytes port).length = 2 := by
  simp [portBytes]

@[simp] theorem portOf_portBytes (port : UInt16) :
    portOf (portBytes port) = port := by
  have h := port.toNat_lt
  rw [portOf, portBytes, beNat_beBytes, Nat.mod_eq_of_lt (by omega)]
  simp

theorem portBytes_portOf {bytes : Bytes} (h : bytes.length = 2) :
    portBytes (portOf bytes) = bytes := by
  match bytes, h with
  | [a, b], _ =>
    have ha := a.toNat_lt
    have hb := b.toNat_lt
    simp [portBytes, portOf, beNat, beBytes, ← UInt8.toNat_inj]
    omega

def InAddr.ofBytes (bytes : Bytes) : InAddr :=
  ⟨bytes.getD 0 0, bytes.getD 1 0, bytes.getD 2 0, bytes.getD 3 0⟩

theorem InAddr.toBytes_ofBytes {bytes : Bytes} (h : bytes.length = 4) :
    (InAddr.ofBytes bytes).toBytes = bytes := by
  match bytes, h with
  | [a, b, c, d], _ => rfl

@[simp] theorem InAddr.toBytes_length (addr : InAddr) : addr.toBytes.length = 4 := rfl

def In6Addr.ofBytes (bytes : Bytes) : In6Addr :=
  Vector.ofFn fun i => bytes.getD i 0

theorem In6Addr.toList_ofBytes {bytes : Bytes} (h : bytes.length = 16) :
    (In6Addr.ofBytes bytes).toList = bytes := by
  apply List.ext_getElem
  · simp [h]
  · intro i hi hi'
    simp [In6Addr.ofBytes, List.getD_eq_getElem?_getD, hi']

@[simp] theorem In6Addr.ofBytes_toList (addr : In6Addr) :
    In6Addr.ofBytes addr.toList = addr := by
  apply Vector.toList_inj.1
  exact In6Addr.toList_ofBytes (by simp)

namespace Socks5UdpCodec

def maxHeaderSize : Nat := 262

/-- What the encoders share: `output` is the capacity, `none` is
`SOCKET_ERROR`. -/
def assemble (output : Option Int) (header : Bytes) (payload : Option Bytes)
    (payloadLength : Int) : Option Bytes :=
  match output with
  | none => none
  | some outputCapacity =>
    if payloadLength < 0 ∨ (payloadLength ≠ 0 ∧ payload = none) ∨
        outputCapacity < header.length + payloadLength then none
    else some (header ++ (payload.getD []).take payloadLength.toNat)

def ipv4Header (addr : InAddr) (port : UInt16) : Bytes :=
  [0, 0, 0, 1] ++ addr.toBytes ++ portBytes port

def ipv6Header (addr : In6Addr) (port : UInt16) : Bytes :=
  [0, 0, 0, 4] ++ addr.toList ++ portBytes port

def domainHeader (name : Bytes) (port : UInt16) : Bytes :=
  [0, 0, 0, 3] ++ [UInt8.ofNat name.length] ++ name ++ portBytes port

@[simp] theorem ipv4Header_length (addr : InAddr) (port : UInt16) :
    (ipv4Header addr port).length = 10 := by
  simp [ipv4Header]

@[simp] theorem ipv6Header_length (addr : In6Addr) (port : UInt16) :
    (ipv6Header addr port).length = 22 := by
  simp [ipv6Header]

@[simp] theorem domainHeader_length (name : Bytes) (port : UInt16) :
    (domainHeader name port).length = 7 + name.length := by
  simp [domainHeader]
  omega

def encodeIPv4 (output : Option Int) (destination : Option (InAddr × UInt16))
    (payload : Option Bytes) (payloadLength : Int) : Option Bytes :=
  match destination with
  | none => none
  | some (addr, port) =>
    assemble output (ipv4Header addr port) payload payloadLength

def encodeIPv6 (output : Option Int) (destination : Option (In6Addr × UInt16))
    (payload : Option Bytes) (payloadLength : Int) : Option Bytes :=
  match destination with
  | none => none
  | some (addr, port) =>
    assemble output (ipv6Header addr port) payload payloadLength

def encodeDomain (output : Option Int) (domain : Option Bytes) (port : UInt16)
    (payload : Option Bytes) (payloadLength : Int) : Option Bytes :=
  match domain with
  | none => none
  | some memory =>
    let name := cString memory
    if name = [] ∨ 255 < name.length then none
    else
      assemble output (domainHeader name port) payload payloadLength

/-- `domain` is the whole buffer. -/
structure DecodedPacket where
  source : SockAddr
  source6 : SockAddr
  sourceLength : Nat
  domain : Bytes
  payload : Bytes
  deriving DecidableEq, Repr

def DecodedPacket.hasDomain (decoded : DecodedPacket) : Bool :=
  decoded.domain.headD 0 != 0

def DecodedPacket.cleared : DecodedPacket where
  source := .inet .any 0
  source6 := .unspec
  sourceLength := 0
  domain := List.replicate 256 0
  payload := []

def sizeofSockAddrIn : Nat := 16

def sizeofSockAddrIn6 : Nat := 28

def decode (packet : Bytes) : Option DecodedPacket :=
  if packet.length < 4 then none
  else if packet.getD 0 0 ≠ 0 ∨ packet.getD 1 0 ≠ 0 ∨ packet.getD 2 0 ≠ 0 then
    none
  else if packet.getD 3 0 = 1 then
    if packet.length < 10 then none
    else some { DecodedPacket.cleared with
      source := .inet (InAddr.ofBytes ((packet.drop 4).take 4))
        (portOf ((packet.drop 8).take 2))
      sourceLength := sizeofSockAddrIn
      payload := packet.drop 10 }
  else if packet.getD 3 0 = 3 then
    if packet.length < 7 then none
    else
      let domainLength := (packet.getD 4 0).toNat
      if domainLength = 0 ∨ packet.length < 7 + domainLength then none
      else some { DecodedPacket.cleared with
        source := .inet .any (portOf ((packet.drop (5 + domainLength)).take 2))
        sourceLength := sizeofSockAddrIn
        domain := (packet.drop 5).take domainLength ++
          List.replicate (256 - domainLength) 0
        payload := packet.drop (7 + domainLength) }
  else if packet.getD 3 0 = 4 then
    if packet.length < 22 then none
    else some { DecodedPacket.cleared with
      source6 := .inet6 (In6Addr.ofBytes ((packet.drop 4).take 16))
        (portOf ((packet.drop 20).take 2))
      sourceLength := sizeofSockAddrIn6
      payload := packet.drop 22 }
  else none

def reencode (output : Option Int) (decoded : DecodedPacket) : Option Bytes :=
  let payload := some decoded.payload
  let payloadLength := decoded.payload.length
  if decoded.hasDomain then
    encodeDomain output (some decoded.domain) decoded.source.getPort payload
      payloadLength
  else
    match decoded.source, decoded.source6 with
    | _, .inet6 addr port => encodeIPv6 output (some (addr, port)) payload payloadLength
    | .inet addr port, _ => encodeIPv4 output (some (addr, port)) payload payloadLength
    | _, _ => none

variable {output : Int} {payload : Bytes}

theorem assemble_fits {header : Bytes}
    (h : (header.length + payload.length : Nat) ≤ output) :
    assemble (some output) header (some payload) payload.length =
      some (header ++ payload) := by
  have hfits : ¬output < (header.length : Int) + (payload.length : Int) := by
    push_cast at h
    omega
  simp [assemble, hfits]

def DecodedPacket.ofIPv4 (addr : InAddr) (port : UInt16) (payload : Bytes) :
    DecodedPacket :=
  { DecodedPacket.cleared with
    source := .inet addr port
    sourceLength := sizeofSockAddrIn
    payload := payload }

def DecodedPacket.ofIPv6 (addr : In6Addr) (port : UInt16) (payload : Bytes) :
    DecodedPacket :=
  { DecodedPacket.cleared with
    source6 := .inet6 addr port
    sourceLength := sizeofSockAddrIn6
    payload := payload }

def DecodedPacket.ofDomain (domain : Bytes) (port : UInt16) (payload : Bytes) :
    DecodedPacket :=
  { DecodedPacket.cleared with
    source := .inet .any port
    sourceLength := sizeofSockAddrIn
    domain := domain ++ List.replicate (256 - domain.length) 0
    payload := payload }

theorem decode_ipv4 (addr : InAddr) (port : UInt16) (payload : Bytes) :
    decode (ipv4Header addr port ++ payload) = some (.ofIPv4 addr port payload) := by
  have hport := portOf_portBytes port
  match hp : portBytes port, portBytes_length port with
  | [a, b], _ =>
    rw [hp] at hport
    simp [decode, ipv4Header, hp, InAddr.toBytes, InAddr.ofBytes, hport,
      DecodedPacket.ofIPv4]

theorem decode_ipv6 (addr : In6Addr) (port : UInt16) (payload : Bytes) :
    decode (ipv6Header addr port ++ payload) = some (.ofIPv6 addr port payload) := by
  have hlen : addr.toList.length = 16 := by simp
  have h16 : (addr.toList ++ (portBytes port ++ payload)).drop 16 =
      portBytes port ++ payload := List.drop_left' hlen
  have hsrc : (addr.toList ++ (portBytes port ++ payload)).take 16 =
      addr.toList := List.take_left' hlen
  have h18 : (addr.toList ++ (portBytes port ++ payload)).drop 18 = payload := by
    rw [show 18 = 16 + 2 from rfl, ← List.drop_drop, h16]
    exact List.drop_left' (portBytes_length port)
  have hport : (portBytes port ++ payload).take 2 = portBytes port :=
    List.take_left' (portBytes_length port)
  simp [decode, ipv6Header, DecodedPacket.ofIPv6, hsrc, h16, h18, hport]
  omega

theorem decode_domain {domain : Bytes} (port : UInt16) (payload : Bytes)
    (hne : domain ≠ []) (hlen : domain.length ≤ 255) :
    decode (domainHeader domain port ++ payload) =
      some (.ofDomain domain port payload) := by
  have hpos : domain.length ≠ 0 := by simpa using hne
  have hn : domain.length % 256 = domain.length := Nat.mod_eq_of_lt (by omega)
  have hdom : (domain ++ (portBytes port ++ payload)).take domain.length =
      domain := List.take_left' rfl
  have hdrop : (domain ++ (portBytes port ++ payload)).drop domain.length =
      portBytes port ++ payload := List.drop_left' rfl
  have hport : (portBytes port ++ payload).take 2 = portBytes port :=
    List.take_left' (portBytes_length port)
  have hpay : (domain ++ (portBytes port ++ payload)).drop
      (domain.length + 2) = payload := by
    rw [← List.drop_drop, hdrop]
    exact List.drop_left' (portBytes_length port)
  have h5 : 5 + domain.length = domain.length + 4 + 1 := by omega
  have h7 : 7 + domain.length = domain.length + 2 + 4 + 1 := by omega
  simp [decode, domainHeader, DecodedPacket.ofDomain, hn, hpos, hdom, h5, h7,
    hdrop, hport, hpay]
  omega

/-- RSV and FRAG are zero, the address type is known and the header is whole,
with a name of at least one octet. -/
def WellFormed (packet : Bytes) : Prop :=
  ∃ atyp rest, packet = 0 :: 0 :: 0 :: atyp :: rest ∧
    ((atyp = 1 ∧ 6 ≤ rest.length) ∨
      (atyp = 3 ∧ ∃ n body, rest = n :: body ∧ n ≠ 0 ∧ n.toNat + 2 ≤ body.length) ∨
      (atyp = 4 ∧ 18 ≤ rest.length))

def NulName (packet : Bytes) : Prop :=
  ∃ n body, packet = 0 :: 0 :: 0 :: 3 :: n :: body ∧ 0 ∈ body.take n.toNat

inductive Form : Bytes → DecodedPacket → Prop where
  | ipv4 (addr : InAddr) (port : UInt16) (payload : Bytes) :
      Form (ipv4Header addr port ++ payload) (.ofIPv4 addr port payload)
  | domain (name : Bytes) (port : UInt16) (payload : Bytes) (hne : name ≠ [])
      (hlen : name.length ≤ 255) :
      Form (domainHeader name port ++ payload) (.ofDomain name port payload)
  | ipv6 (addr : In6Addr) (port : UInt16) (payload : Bytes) :
      Form (ipv6Header addr port ++ payload) (.ofIPv6 addr port payload)

variable {packet : Bytes}

theorem Form.decode {decoded : DecodedPacket}
    (h : Form packet decoded) : decode packet = some decoded := by
  cases h with
  | ipv4 addr port payload => exact decode_ipv4 addr port payload
  | domain name port payload hne hlen => exact decode_domain port payload hne hlen
  | ipv6 addr port payload => exact decode_ipv6 addr port payload

theorem cut (n : Nat) (bytes : Bytes) :
    bytes = bytes.take n ++ ((bytes.drop n).take 2 ++ bytes.drop (n + 2)) := by
  rw [← List.drop_drop, List.take_append_drop, List.take_append_drop]

theorem WellFormed.form (h : WellFormed packet) :
    ∃ decoded, Form packet decoded := by
  obtain ⟨atyp, rest, rfl, ⟨rfl, hlen⟩ | ⟨rfl, n, body, rfl, hn, hlen⟩ |
    ⟨rfl, hlen⟩⟩ := h
  · have haddr : (rest.take 4).length = 4 := by simp; omega
    have hport : ((rest.drop 4).take 2).length = 2 := by simp; omega
    have hform := Form.ipv4 (InAddr.ofBytes (rest.take 4))
      (portOf ((rest.drop 4).take 2)) (rest.drop 6)
    rw [ipv4Header, InAddr.toBytes_ofBytes haddr, portBytes_portOf hport,
      List.append_assoc, List.append_assoc, ← cut 4 rest] at hform
    exact ⟨_, hform⟩
  · have hname : (body.take n.toNat).length = n.toNat := by simp; omega
    have hport : ((body.drop n.toNat).take 2).length = 2 := by simp; omega
    have hpos : n.toNat ≠ 0 := by
      intro h0
      exact hn (UInt8.toNat_inj.1 h0)
    have hform := Form.domain (body.take n.toNat)
      (portOf ((body.drop n.toNat).take 2)) (body.drop (n.toNat + 2))
      (by
        intro h0
        rw [h0] at hname
        exact hpos hname.symm)
      (by
        have hlt := n.toNat_lt
        omega)
    rw [domainHeader, portBytes_portOf hport, hname, List.append_assoc,
      List.append_assoc, ← cut n.toNat body] at hform
    exact ⟨_, by simpa using hform⟩
  · have haddr : (rest.take 16).length = 16 := by simp; omega
    have hport : ((rest.drop 16).take 2).length = 2 := by simp; omega
    have hform := Form.ipv6 (In6Addr.ofBytes (rest.take 16))
      (portOf ((rest.drop 16).take 2)) (rest.drop 18)
    rw [ipv6Header, In6Addr.toList_ofBytes haddr, portBytes_portOf hport,
      List.append_assoc, List.append_assoc, ← cut 16 rest] at hform
    exact ⟨_, hform⟩

theorem wellFormed_of_decode (h : decode packet ≠ none) :
    WellFormed packet := by
  match packet with
  | [] | [_] | [_, _] | [_, _, _] => simp [decode] at h
  | a :: b :: c :: atyp :: rest =>
    have hzero : a = 0 ∧ b = 0 ∧ c = 0 := by
      by_contra hn
      apply h
      simp only [decode]
      rw [if_neg (by simp), if_pos]
      simp only [List.getD_cons_zero, List.getD_cons_succ]
      tauto
    obtain ⟨rfl, rfl, rfl⟩ := hzero
    refine ⟨atyp, rest, rfl, ?_⟩
    by_contra hn
    apply h
    simp only [not_or, not_and, not_exists] at hn
    obtain ⟨h1, h3, h4⟩ := hn
    by_cases ha1 : atyp = 1
    · have hlen := h1 ha1
      simp [decode, ha1]
      omega
    by_cases ha3 : atyp = 3
    · subst ha3
      cases rest with
      | nil => simp [decode]
      | cons n body =>
        have hbody := h3 rfl n body rfl
        by_cases hn0 : n = 0
        · simp [decode, hn0]
        · have hlen := hbody hn0
          simp [decode]
          omega
    by_cases ha4 : atyp = 4
    · have hlen := h4 ha4
      simp [decode, ha4]
      omega
    · simp [decode, ha1, ha3, ha4]

theorem decode_form {decoded : DecodedPacket}
    (h : decode packet = some decoded) : Form packet decoded := by
  have hne : decode packet ≠ none := by simp [h]
  obtain ⟨other, hform⟩ := (wellFormed_of_decode hne).form
  have heq := hform.decode
  rw [h, Option.some.injEq] at heq
  rw [heq]
  exact hform

theorem decode_accepts_iff (packet : Bytes) :
    (decode packet).isSome = true ↔ WellFormed packet := by
  constructor
  · intro h
    apply wellFormed_of_decode
    intro hn
    simp [hn] at h
  · intro h
    obtain ⟨decoded, hform⟩ := h.form
    simp [hform.decode]

@[simp] theorem hasDomain_ofIPv4 (addr : InAddr) (port : UInt16)
    (payload : Bytes) : (DecodedPacket.ofIPv4 addr port payload).hasDomain = false :=
  rfl

@[simp] theorem hasDomain_ofIPv6 (addr : In6Addr) (port : UInt16)
    (payload : Bytes) : (DecodedPacket.ofIPv6 addr port payload).hasDomain = false :=
  rfl

variable {name : Bytes}

theorem hasDomain_ofDomain (port : UInt16) (payload : Bytes)
    (hne : name ≠ []) (hzero : 0 ∉ name) :
    (DecodedPacket.ofDomain name port payload).hasDomain = true := by
  cases name with
  | nil => exact absurd rfl hne
  | cons b name =>
    simp only [List.mem_cons, not_or] at hzero
    simpa [DecodedPacket.hasDomain, DecodedPacket.ofDomain] using Ne.symm hzero.1

theorem cString_ofDomain (port : UInt16) (payload : Bytes)
    (hlen : name.length ≤ 255) (hzero : 0 ∉ name) :
    cString (DecodedPacket.ofDomain name port payload).domain = name := by
  obtain ⟨k, hk⟩ : ∃ k, 256 - name.length = k + 1 := ⟨255 - name.length, by omega⟩
  rw [DecodedPacket.ofDomain, hk, List.replicate_succ]
  exact cString_of_nonzero hzero _

theorem encodeDomain_fits {memory : Bytes} (port : UInt16)
    (hne : cString memory ≠ []) (hlen : (cString memory).length ≤ 255)
    (h : ((domainHeader (cString memory) port).length + payload.length : Nat) ≤
      output) :
    encodeDomain (some output) (some memory) port (some payload) payload.length =
      some (domainHeader (cString memory) port ++ payload) := by
  have hname : ¬(cString memory = [] ∨ 255 < (cString memory).length) := by
    simp [hne, hlen]
  simp only [encodeDomain, if_neg hname]
  exact assemble_fits h

theorem assemble_some {output : Option Int} {header : Bytes}
    {payload : Option Bytes} {payloadLength : Int}
    (h : assemble output header payload payloadLength = some packet) :
    ∃ body, packet = header ++ body := by
  cases output with
  | none => simp [assemble] at h
  | some capacity =>
    simp only [assemble] at h
    split at h
    · simp at h
    · exact ⟨_, (Option.some.inj h).symm⟩

private theorem encodeDomain_some {output : Option Int} {memory : Bytes} {port : UInt16}
    {payload : Option Bytes} {payloadLength : Int}
    (h : encodeDomain output (some memory) port payload payloadLength = some packet) :
    (cString memory).length ≤ 255 ∧
      ∃ body, packet = domainHeader (cString memory) port ++ body := by
  simp only [encodeDomain] at h
  split at h
  · simp at h
  · rename_i hname
    exact ⟨by omega, assemble_some h⟩

theorem nulName_domain (port : UInt16) (payload : Bytes)
    (hlen : name.length ≤ 255) :
    NulName (domainHeader name port ++ payload) ↔ 0 ∈ name := by
  have hn : (UInt8.ofNat name.length).toNat = name.length := by
    simp
    omega
  have hbody : (name ++ (portBytes port ++ payload)).take
      (UInt8.ofNat name.length).toNat = name := by
    rw [hn]
    exact List.take_left' rfl
  constructor
  · rintro ⟨n, body, heq, hzero⟩
    simp only [domainHeader, List.cons_append, List.nil_append, List.cons.injEq,
      true_and, List.append_assoc] at heq
    obtain ⟨rfl, rfl⟩ := heq
    rwa [hbody] at hzero
  · intro hzero
    refine ⟨UInt8.ofNat name.length, name ++ (portBytes port ++ payload), ?_, ?_⟩
    · simp [domainHeader]
    · rwa [hbody]

theorem reencode_nul {output : Option Int} (port : UInt16)
    (payload : Bytes) (hlen : name.length ≤ 255) (hzero : 0 ∈ name) :
    reencode output (.ofDomain name port payload) ≠
      some (domainHeader name port ++ payload) := by
  intro h
  simp only [reencode] at h
  split at h
  · obtain ⟨hclen, body, heq⟩ := encodeDomain_some h
    simp only [domainHeader, List.cons_append, List.nil_append, List.append_assoc,
      List.cons.injEq, true_and] at heq
    obtain ⟨hn, hbody⟩ := heq
    have hsame : name.length =
        (cString (DecodedPacket.ofDomain name port payload).domain).length := by
      have := congrArg UInt8.toNat hn
      simp only [UInt8.toNat_ofNat'] at this
      omega
    have hname := List.append_inj_left hbody hsame
    rw [hname] at hzero
    exact cString_zero_notMem _ hzero
  · simp only [DecodedPacket.ofDomain, DecodedPacket.cleared] at h
    obtain ⟨body, heq⟩ := assemble_some h
    simp [domainHeader, ipv4Header] at heq

theorem reencode_iff {decoded : DecodedPacket}
    (h : decode packet = some decoded) (hfits : packet.length ≤ output) :
    reencode (some output) decoded = some packet ↔ ¬NulName packet := by
  cases decode_form h with
  | ipv4 addr port payload =>
    have hnul : ¬NulName (ipv4Header addr port ++ payload) := by
      rintro ⟨n, body, heq, -⟩
      simp [ipv4Header] at heq
    simp only [hnul, not_false_eq_true, iff_true, reencode, hasDomain_ofIPv4]
    rw [List.length_append] at hfits
    exact assemble_fits hfits
  | ipv6 addr port payload =>
    have hnul : ¬NulName (ipv6Header addr port ++ payload) := by
      rintro ⟨n, body, heq, -⟩
      simp [ipv6Header] at heq
    simp only [hnul, not_false_eq_true, iff_true, reencode, hasDomain_ofIPv6]
    rw [List.length_append] at hfits
    exact assemble_fits hfits
  | domain name port payload hne hlen =>
    rw [nulName_domain port payload hlen]
    constructor
    · intro heq hzero
      exact reencode_nul port payload hlen hzero heq
    · intro hzero
      have hc := cString_ofDomain port payload hlen hzero
      rw [List.length_append] at hfits
      simp only [reencode, hasDomain_ofDomain port payload hne hzero, if_true]
      rw [← hc] at hne hlen hfits
      have henc := encodeDomain_fits port hne hlen hfits
      rwa [hc] at henc

/-- What is encoded is decoded to the same address or name, port and payload;
the packets decoded are the well-formed ones; a packet is what its decoded
fields are encoded to just when its name holds no NUL. -/
theorem codec_round_trip :
    (∀ (output : Int) (addr : InAddr) (port : UInt16) (payload : Bytes),
      (10 + payload.length : Nat) ≤ output →
      (encodeIPv4 (some output) (some (addr, port)) (some payload)
        payload.length).bind decode = some (.ofIPv4 addr port payload)) ∧
    (∀ (output : Int) (addr : In6Addr) (port : UInt16) (payload : Bytes),
      (22 + payload.length : Nat) ≤ output →
      (encodeIPv6 (some output) (some (addr, port)) (some payload)
        payload.length).bind decode = some (.ofIPv6 addr port payload)) ∧
    (∀ (output : Int) (domain : Bytes) (port : UInt16) (payload : Bytes),
      domain ≠ [] → domain.length ≤ 255 → 0 ∉ domain →
      (7 + domain.length + payload.length : Nat) ≤ output →
      ∃ decoded,
        (encodeDomain (some output) (some domain) port (some payload)
          payload.length).bind decode = some decoded ∧
        decoded.hasDomain = true ∧ cString decoded.domain = domain ∧
        decoded.source.getPort = port ∧ decoded.payload = payload) ∧
    (∀ packet, (decode packet).isSome = true ↔ WellFormed packet) ∧
    (∀ (output : Int) (packet : Bytes) (decoded : DecodedPacket),
      decode packet = some decoded → packet.length ≤ output →
      (reencode (some output) decoded = some packet ↔ ¬NulName packet)) := by
  refine ⟨?_, ?_, ?_, decode_accepts_iff, ?_⟩
  · intro output addr port payload hfits
    have henc : assemble (some output) (ipv4Header addr port) (some payload)
        payload.length = some (ipv4Header addr port ++ payload) :=
      assemble_fits (by simpa using hfits)
    simp [encodeIPv4, henc, decode_ipv4]
  · intro output addr port payload hfits
    have henc : assemble (some output) (ipv6Header addr port) (some payload)
        payload.length = some (ipv6Header addr port ++ payload) :=
      assemble_fits (by simpa using hfits)
    simp [encodeIPv6, henc, decode_ipv6]
  · intro output domain port payload hne hlen hzero hfits
    have hself := cString_self hzero
    refine ⟨.ofDomain domain port payload, ?_,
      hasDomain_ofDomain port payload hne hzero,
      cString_ofDomain port payload hlen hzero, rfl, rfl⟩
    rw [← hself] at hne hlen hfits
    rw [encodeDomain_fits port hne hlen (by simpa using hfits)]
    rw [hself] at hne hlen ⊢
    exact decode_domain port payload hne hlen
  · intro output packet decoded h hfits
    exact reencode_iff h hfits

theorem nul_name_reencoded :
    let packet : Bytes := [0, 0, 0, 3, 3, 97, 0, 98, 0, 53]
    ∃ decoded, decode packet = some decoded ∧
      reencode (some 512) decoded = some [0, 0, 0, 3, 1, 97, 0, 53] ∧
      reencode (some 512) decoded ≠ some packet := by
  refine ⟨.ofDomain [97, 0, 98] 53 [], ?_, ?_, ?_⟩
  · decide +kernel
  · decide
  · decide

end Socks5UdpCodec

end ProxyLane.Hook
