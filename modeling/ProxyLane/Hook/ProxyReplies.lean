import Mathlib.Data.List.TakeWhile
import ProxyLane.Hook.ProxyHandshake

/-!
# The handshake byte by byte

What a handshake comes to is a function of the bytes of the proxy.  A read of
several bytes counts as the bytes one by one: a SOCKS reply is read no further
than it is known to go, and of an HTTP reply the header alone decides, where
the status is found within it.
-/

namespace ProxyLane.Hook

open ProxyLane.Foundation

namespace ProxyHandshake

/-! ## Byte by byte -/

/-- What a handshake has come to; `rest` is what followed a success. -/
structure Progress where
  op : Option Op
  opState : Nat
  reply : Bytes
  queued : Bytes
  result : List Notice
  relay : Option (Bytes × Bytes)
  rest : Option Bytes
  deriving DecidableEq, Repr

def Progress.start (op : Op) (request : Bytes) : Progress :=
  ⟨some op, 1, [], request, [], none, none⟩

def Progress.over (p : Progress) (notices : List Notice) : Progress :=
  { p with op := none, opState := 0, reply := [], result := p.result ++ notices }

def Progress.carryOut (op : Op) : Verdict → Progress → Progress
  | .wait, p => p
  | .failed notices _, p => p.over notices
  | .request data next, p =>
    match data with
    | some (byte :: data) =>
      { p with opState := next, reply := [], queued := p.queued ++ byte :: data }
    | _ => p.over (failure op .requestFailed wsaeInval wsaeInval [])
  | .goOn notices next, p =>
    { p with opState := next, reply := [], result := p.result ++ notices }
  | .succeeded notices relay, p =>
    { p.over notices with relay := relay, rest := some [] }

def verdict (cfg : Config) (op : Op) (opState : Nat) (reply : Bytes) : Verdict :=
  if isHttp cfg then
    if headerLimit < reply.length then headerTooLong
    else if (findEnd reply).isSome then httpReply 0 [] reply
    else .wait
  else socksReply cfg op opState reply

def onByte (cfg : Config) (p : Progress) (byte : UInt8) : Progress :=
  match p.op with
  | none => { p with rest := p.rest.map (· ++ [byte]) }
  | some op =>
    let reply := p.reply ++ [byte]
    Progress.carryOut op (verdict cfg op p.opState reply) { p with reply := reply }

def Progress.feed (cfg : Config) (p : Progress) (bytes : Bytes) : Progress :=
  bytes.foldl (onByte cfg) p

def outcome (fin : Bool) (p : Progress) : Progress :=
  match fin, p.op with
  | true, some op =>
    p.over (failure op .requestFailed wsaeConnAborted wsaeConnAborted [])
  | _, _ => p

variable {cfg : Config} {op : Op} {p : Progress} {s : Layer} {env : Env}
  {bytes : Bytes}

@[simp] theorem feed_nil : p.feed cfg [] = p := rfl

@[simp] theorem feed_cons (byte : UInt8) (bytes : Bytes) :
    p.feed cfg (byte :: bytes) = (onByte cfg p byte).feed cfg bytes := rfl

theorem feed_append (xs ys : Bytes) :
    p.feed cfg (xs ++ ys) = (p.feed cfg xs).feed cfg ys := by
  simp [Progress.feed]

theorem feed_over (h : p.op = none) (bytes : Bytes) :
    p.feed cfg bytes = { p with rest := p.rest.map (· ++ bytes) } := by
  induction bytes generalizing p with
  | nil =>
    cases p with
    | mk op opState reply queued result relay rest => cases rest <;> simp
  | cons byte bytes ih =>
    have hbyte : onByte cfg p byte =
        { p with rest := p.rest.map (· ++ [byte]) } := by simp [onByte, h]
    rw [feed_cons, hbyte]
    have hrest := @ih { p with rest := p.rest.map (· ++ [byte]) } h
    rw [hrest]
    cases p.rest <;> simp

theorem outcome_over {fin : Bool} (h : p.op = none) : outcome fin p = p := by
  cases fin <;> simp [outcome, h]

/-! ## The end of the header -/

variable {n : Nat} {xs : Bytes}

theorem findEnd_bounds (h : findEnd xs = some n) :
    4 ≤ n ∧ n ≤ xs.length := by
  induction xs generalizing n with
  | nil => simp [findEnd] at h
  | cons byte rest ih =>
    simp only [findEnd] at h
    split at h
    · rename_i hhead
      have hlength := congrArg List.length hhead
      simp only [endOfHeader, List.length_take, List.length_cons,
        List.length_nil, Option.some.injEq] at hlength h ⊢
      omega
    · obtain ⟨m, hm, rfl⟩ := Option.map_eq_some_iff.1 h
      have hbounds := ih hm
      simp only [List.length_cons]
      omega

theorem findEnd_append (h : findEnd xs = some n)
    (ys : Bytes) : findEnd (xs ++ ys) = some n := by
  induction xs generalizing n with
  | nil => simp [findEnd] at h
  | cons byte rest ih =>
    have hbounds := findEnd_bounds h
    have htake : (byte :: (rest ++ ys)).take 4 = (byte :: rest).take 4 := by
      rw [← List.cons_append, List.take_append_of_le_length (by omega)]
    simp only [findEnd] at h
    simp only [List.cons_append, findEnd, htake]
    split
    · rename_i hhead
      rw [if_pos hhead] at h
      exact h
    · rename_i hhead
      rw [if_neg hhead] at h
      obtain ⟨m, hm, rfl⟩ := Option.map_eq_some_iff.1 h
      rw [ih hm]
      rfl

theorem findEnd_left_none {ys : Bytes} (h : findEnd (xs ++ ys) = none) :
    findEnd xs = none := by
  cases hxs : findEnd xs with
  | none => rfl
  | some n =>
    rw [findEnd_append hxs] at h
    simp at h

theorem findEnd_snoc {byte : UInt8}
    (hnone : findEnd xs = none) (h : findEnd (xs ++ [byte]) = some n) :
    n = xs.length + 1 := by
  induction xs generalizing n with
  | nil =>
    have hbounds := findEnd_bounds h
    simp only [List.nil_append, List.length_cons, List.length_nil] at hbounds
    omega
  | cons x xs ih =>
    have hbounds := findEnd_bounds h
    simp only [findEnd] at hnone
    simp only [List.cons_append, findEnd] at h
    split at hnone
    · simp at hnone
    · rename_i hhead
      have hrest : findEnd xs = none := by simpa using hnone
      split at h
      · rename_i hhead'
        -- the four bytes were not there without the last one
        by_cases hshort : (x :: xs).length < 4
        · simp only [List.cons_append, List.length_cons, List.length_append,
            List.length_nil, Option.some.injEq] at hbounds hshort h ⊢
          omega
        · rw [← List.cons_append, List.take_append_of_le_length (by omega)] at hhead'
          exact absurd hhead' hhead
      · obtain ⟨m, hm, rfl⟩ := Option.map_eq_some_iff.1 h
        have := ih hrest hm
        simp only [List.length_cons]
        omega

theorem newline_mem_header (h : findEnd xs = some n) :
    10 ∈ xs.take n := by
  induction xs generalizing n with
  | nil => simp [findEnd] at h
  | cons byte rest ih =>
    simp only [findEnd] at h
    split at h
    · rename_i hhead
      simp only [Option.some.injEq] at h
      rw [← h, hhead]
      simp [endOfHeader]
    · obtain ⟨m, hm, rfl⟩ := Option.map_eq_some_iff.1 h
      rw [List.take_succ_cons]
      exact List.mem_cons_of_mem _ (ih hm)

/-! ## The status -/

/-- What a scan gives when more bytes follow the text. -/
def Scan.over {α : Type} (more : Bytes) : Scan α → Scan α
  | .got value rest => .got value (rest ++ more)
  | .mismatch => .mismatch
  | .exhausted => .exhausted

def Extends {α : Type} (scan : Bytes → Scan α) : Prop :=
  ∀ text more, scan text ≠ .exhausted → scan (text ++ more) = (scan text).over more

theorem Extends.got {α : Type} {scan : Bytes → Scan α} (h : Extends scan) {text rest : Bytes}
    {value : α} (more : Bytes) (hgot : scan text = .got value rest) :
    scan (text ++ more) = .got value (rest ++ more) := by
  rw [h text more (by simp [hgot]), hgot]
  rfl

theorem Extends.mismatch {α : Type} {scan : Bytes → Scan α} (h : Extends scan)
    {text : Bytes} (more : Bytes) (hnone : scan text = .mismatch) :
    scan (text ++ more) = .mismatch := by
  rw [h text more (by simp [hnone]), hnone]
  rfl

theorem scanLiteral_extends (literal : Bytes) : Extends (scanLiteral literal) := by
  intro text more h
  induction literal generalizing text with
  | nil => rfl
  | cons byte literal ih =>
    cases text with
    | nil => exact absurd rfl h
    | cons x text =>
      simp only [List.cons_append, scanLiteral] at h ⊢
      split
      · rename_i heq
        rw [if_pos heq] at h
        exact ih text h
      · rfl

theorem scanDigits_extends (value : Nat) : Extends (scanDigits value) := by
  intro text more h
  induction text generalizing value with
  | nil => exact absurd rfl h
  | cons x text ih =>
    simp only [List.cons_append, scanDigits] at h ⊢
    split
    · rename_i hdigit
      rw [if_pos hdigit] at h
      exact ih _ h
    · rfl

theorem Extends.of_cons {α : Type} {scan : Bytes → Scan α}
    (hnil : scan [] = .exhausted)
    (hcons : ∀ x, Extends fun text => scan (x :: text)) : Extends scan := by
  intro text more h
  cases text with
  | nil => exact absurd hnil h
  | cons x text => exact hcons x text more h

theorem extends_mismatch {α : Type} :
    Extends fun _ => (Scan.mismatch : Scan α) :=
  fun _ _ _ => rfl

theorem Extends.bind {α β : Type} {scan : Bytes → Scan α}
    {next : α → Bytes → Scan β} (h : Extends scan)
    (hnext : ∀ value, Extends (next value)) :
    Extends fun text => (scan text).bind next := by
  intro text more hne
  simp only [Scan.bind] at hne ⊢
  cases hscan : scan text with
  | got first middle =>
    rw [hscan] at hne
    rw [h.got more hscan]
    exact hnext first middle more hne
  | mismatch =>
    rw [h.mismatch more hscan]
    rfl
  | exhausted => simp [hscan] at hne

theorem scanFirstDigit_extends : Extends scanFirstDigit := by
  refine Extends.of_cons rfl fun x => ?_
  simp only [scanFirstDigit]
  split
  · exact fun text more h => scanDigits_extends 0 (x :: text) more h
  · exact extends_mismatch

theorem scanSigned_extends : Extends scanSigned := by
  refine Extends.of_cons rfl fun x => ?_
  simp only [scanSigned]
  split
  · exact scanFirstDigit_extends
  · split
    · intro text more h
      dsimp only at h ⊢
      cases hdigit : scanFirstDigit text with
      | got first middle =>
        rw [scanFirstDigit_extends.got more hdigit]
        rfl
      | mismatch =>
        rw [scanFirstDigit_extends.mismatch more hdigit]
        rfl
      | exhausted => simp [hdigit] at h
    · exact fun text more h => scanFirstDigit_extends (x :: text) more h

theorem scanNumber_extends : Extends scanNumber := by
  intro text more h
  induction text with
  | nil => exact absurd rfl h
  | cons x text ih =>
    simp only [List.cons_append, scanNumber] at h ⊢
    split
    · rename_i hspace
      rw [if_pos hspace] at h
      exact ih h
    · rename_i hother
      rw [if_neg hother] at h
      exact scanSigned_extends (x :: text) more h

theorem scanStatus_extends : Extends scanStatus :=
  (scanLiteral_extends _).bind fun _ => scanNumber_extends.bind fun _ =>
    (scanLiteral_extends _).bind fun _ => scanNumber_extends.bind fun _ =>
      scanNumber_extends

/-- The status is found, or a text that is none, within the header; and a status
that is not found is not taken for one that asks for authentication. -/
def decided (stack : Nat) (header : Bytes) : Bool :=
  match scanStatus header with
  | .got _ _ => true
  | .mismatch => header.take 4 != ascii "HTTP" || stack != 407
  | .exhausted => false

theorem httpRefused_header {buffer : Bytes} {status status' : Nat}
    (hend : findEnd buffer = some n)
    (hstatus : buffer.take 4 = ascii "HTTP" → (status = 407 ↔ status' = 407)) :
    httpRefused status buffer = httpRefused status' (buffer.take n) := by
  have hbounds := findEnd_bounds hend
  have hfour : (buffer.take n).take 4 = buffer.take 4 := by
    rw [List.take_take, Nat.min_eq_left hbounds.1]
  have hline : statusLine buffer = statusLine (buffer.take n) := by
    have hsplit : buffer.takeWhile (· ≠ 10) = (buffer.take n).takeWhile (· ≠ 10) := by
      conv_lhs => rw [← List.take_append_drop n buffer]
      rw [List.takeWhile_append, if_neg]
      intro hall
      have hmem := newline_mem_header hend
      rw [← (List.takeWhile_prefix _).eq_of_length hall] at hmem
      simpa using List.mem_takeWhile_imp hmem
    simp only [statusLine, hsplit]
  unfold httpRefused
  rw [hfour, hline]
  by_cases hhttp : buffer.take 4 = ascii "HTTP"
  · simp only [hhttp, if_true, hstatus hhttp]
  · simp only [hhttp, if_false]

theorem httpReply_header {stack : Nat} {heap buffer : Bytes}
    (hend : findEnd buffer = some n) (h : decided stack (buffer.take n) = true) :
    httpReply stack heap buffer = httpReply 0 [] (buffer.take n) := by
  have hsplit : buffer ++ heap = buffer.take n ++ (buffer.drop n ++ heap) := by
    rw [← List.append_assoc, List.take_append_drop]
  have hbounds := findEnd_bounds hend
  have hfour : (buffer.take n).take 4 = buffer.take 4 := by
    rw [List.take_take, Nat.min_eq_left hbounds.1]
  unfold httpReply
  rw [hsplit, List.append_nil]
  unfold decided at h
  cases hscan : scanStatus (buffer.take n) with
  | got status rest =>
    rw [scanStatus_extends.got _ hscan]
    simp only
    split
    · rfl
    · exact httpRefused_header hend fun _ => Iff.rfl
  | mismatch =>
    rw [scanStatus_extends.mismatch _ hscan]
    apply httpRefused_header hend
    intro hhttp
    rw [hscan] at h
    simp only [hfour, hhttp, bne_self_eq_false, Bool.false_or, bne_iff_ne] at h
    simp [h]
  | exhausted => simp [hscan] at h

/-! ## SOCKS replies -/

def Waiting (cfg : Config) (p : Progress) : Prop :=
  if isHttp cfg then
    findEnd p.reply = none ∧ p.reply.length ≤ headerLimit ∧ p.opState ≠ 0
  else p.reply.length < replyLength cfg p.opState p.reply

theorem responseLength_snoc {reply : Bytes} {byte : UInt8}
    (h : reply.length + 1 < responseLength reply) :
    responseLength (reply ++ [byte]) = responseLength reply := by
  unfold responseLength at h ⊢
  split at h
  · rename_i hshort
    have hshort' : (reply ++ [byte]).length < 4 := by simpa using h
    rw [if_pos hshort, if_pos hshort']
  · rename_i hlong
    have hlong' : ¬ (reply ++ [byte]).length < 4 := by
      simp only [List.length_append, List.length_cons, List.length_nil]
      omega
    have hatyp : (reply ++ [byte]).getD 3 0 = reply.getD 3 0 := by
      simp [List.getD_eq_getElem?_getD, List.getElem?_append_left (by omega : 3 < reply.length)]
    rw [if_neg hlong, if_neg hlong', hatyp]
    split at h
    · rfl
    · split at h
      · omega
      · rename_i hfive
        have hfive' : ¬ (reply ++ [byte]).length < 5 := by
          simp only [List.length_append, List.length_cons, List.length_nil]
          omega
        have hlen : (reply ++ [byte]).getD 4 0 = reply.getD 4 0 := by
          simp [List.getD_eq_getElem?_getD,
            List.getElem?_append_left (by omega : 4 < reply.length)]
        simp only [hfive, hfive', if_false, hlen]
    · rfl
    · omega

variable {reply : Bytes}

theorem responseLength_atyp (hlong : 4 ≤ reply.length)
    (h : 4 < responseLength reply) :
    reply.getD 3 0 = 1 ∨ reply.getD 3 0 = 3 ∨ reply.getD 3 0 = 4 := by
  unfold responseLength at h
  rw [if_neg (by omega)] at h
  split at h
  · rename_i hone
    exact Or.inl (UInt8.toNat_inj.1 hone)
  · rename_i hthree
    exact Or.inr (Or.inl (UInt8.toNat_inj.1 hthree))
  · rename_i hfour
    exact Or.inr (Or.inr (UInt8.toNat_inj.1 hfour))
  · omega

theorem socksReply_short {opState : Nat} {reply : Bytes} {byte : UInt8}
    (h : reply.length + 1 < replyLength cfg opState reply) :
    socksReply cfg op opState (reply ++ [byte]) = .wait ∧
      replyLength cfg opState (reply ++ [byte]) = replyLength cfg opState reply := by
  unfold replyLength at h ⊢
  unfold socksReply
  by_cases hsocks5 : cfg.proxyType = .socks5
  · simp only [hsocks5, if_true] at h ⊢
    by_cases hmethod : opState = 1 ∨ opState = 2
    · simp only [hmethod, if_true] at h ⊢
      have hlength : (reply ++ [byte]).length ≠ 2 := by
        simp only [List.length_append, List.length_cons, List.length_nil]
        omega
      simp only [socks5Method, hlength, ne_eq, not_false_eq_true, if_true, and_self]
    · simp only [hmethod, if_false] at h ⊢
      split at h
      · have hsame := @responseLength_snoc reply byte h
        refine ⟨?_, by rw [hsame]⟩
        have hlength : (reply ++ [byte]).length = reply.length + 1 := by simp
        have hatyp : ¬ (4 ≤ (reply ++ [byte]).length ∧
            (reply ++ [byte]).getD 3 0 ≠ 1 ∧ (reply ++ [byte]).getD 3 0 ≠ 3 ∧
            (reply ++ [byte]).getD 3 0 ≠ 4) := by
          rintro ⟨hlong, hone, hthree, hfour⟩
          have hknown := responseLength_atyp hlong (by omega)
          simp_all
        unfold socks5Reply
        rw [if_neg hatyp, if_neg (by omega)]
      · omega
  · simp only [hsocks5, if_false] at h ⊢
    split at h
    · have hlength : (reply ++ [byte]).length ≠ 8 := by
        simp only [List.length_append, List.length_cons, List.length_nil]
        omega
      simp only [socks4Reply, hlength, ne_eq, not_false_eq_true, if_true, and_self]
    · omega

theorem feed_socks {chunk : Bytes} (hhttp : isHttp cfg = false)
    (hop : p.op = some op) (hchunk : chunk ≠ [])
    (hlength : p.reply.length + chunk.length ≤ replyLength cfg p.opState p.reply) :
    p.feed cfg chunk = Progress.carryOut op
      (socksReply cfg op p.opState (p.reply ++ chunk))
      { p with reply := p.reply ++ chunk } := by
  induction chunk generalizing p with
  | nil => exact absurd rfl hchunk
  | cons byte chunk ih =>
    have hbyte : onByte cfg p byte = Progress.carryOut op
        (socksReply cfg op p.opState (p.reply ++ [byte]))
        { p with reply := p.reply ++ [byte] } := by
      simp [onByte, hop, verdict, hhttp]
    rw [feed_cons, hbyte]
    cases chunk with
    | nil => rfl
    | cons next chunk =>
      simp only [List.length_cons] at hlength
      obtain ⟨hwait, hsame⟩ := @socksReply_short cfg op p.opState p.reply byte
        (by omega)
      rw [hwait]
      have hrest := @ih { p with reply := p.reply ++ [byte] } hop (by simp)
        (by
          simp only [hsame, List.length_append, List.length_cons, List.length_nil]
          omega)
      simpa [Progress.carryOut] using hrest

def Verdict.next? : Verdict → Option Nat
  | .request _ next => some next
  | .goOn _ next => some next
  | _ => none

variable {opState next : Nat}

theorem socks4Reply_next
    (h : (socks4Reply cfg op opState reply).next? = some next) :
    next = 2 ∨ next = opState := by
  unfold socks4Reply connected socks4Listening at h
  simp only at h
  (repeat' split at h) <;> simp_all [Verdict.next?]

theorem socks5Method_next
    (h : (socks5Method cfg op opState reply).next? = some next) :
    next = 2 ∨ next = 3 := by
  unfold socks5Method at h
  simp only at h
  (repeat' split at h) <;> simp_all [Verdict.next?]

private theorem socks5Reply_next
    (h : (socks5Reply cfg op opState reply).next? = some next) :
    next = 4 ∨ next = opState := by
  unfold socks5Reply socks5Granted connected socks5Relay at h
  simp only at h
  (repeat' split at h) <;> simp [Verdict.next?] at h
  · exact .inl h.symm
  · exact .inr h.symm

theorem socksReply_next (hneeded : 0 < replyLength cfg opState reply)
    (h : (socksReply cfg op opState reply).next? = some next) :
    0 < replyLength cfg next [] := by
  unfold replyLength at hneeded ⊢
  unfold socksReply at h
  have hempty : 0 < responseLength [] := by simp [responseLength]
  by_cases hsocks5 : cfg.proxyType = .socks5
  · simp only [hsocks5, if_true] at h hneeded ⊢
    by_cases hmethod : opState = 1 ∨ opState = 2
    · simp only [hmethod, if_true] at h
      obtain rfl | rfl := socks5Method_next h <;> simp [hempty]
    · simp only [hmethod, if_false] at h hneeded
      obtain rfl | rfl := socks5Reply_next h
      · simp [hempty]
      · split at hneeded
        · rename_i hstate
          simp [hmethod, hstate, hempty]
        · omega
  · simp only [hsocks5, if_false] at h hneeded ⊢
    obtain rfl | rfl := socks4Reply_next h
    · simp
    · exact hneeded

theorem four_le_responseLength (reply : Bytes) : 4 ≤ responseLength reply := by
  simp only [responseLength]
  (repeat' split) <;> omega

theorem responseLength_le {reply : Bytes} {byte : UInt8}
    (h : reply.length < responseLength reply) :
    (reply ++ [byte]).length ≤ responseLength (reply ++ [byte]) := by
  have hlength : (reply ++ [byte]).length = reply.length + 1 := by simp
  by_cases hmore : reply.length + 1 < responseLength reply
  · rw [responseLength_snoc hmore, hlength]
    omega
  · have hlast : responseLength reply = reply.length + 1 := by omega
    by_cases hfour : reply.length < 4
    · have hthree : responseLength reply = 4 := by simp [responseLength, hfour]
      simp only [responseLength]
      (repeat' split) <;> omega
    · have hsame : (reply ++ [byte]).getD 3 0 = reply.getD 3 0 := by
        simp [List.getD_eq_getElem?_getD,
          List.getElem?_append_left (by omega : 3 < reply.length)]
      simp only [responseLength, hfour, if_false] at hlast
      simp only [responseLength, hsame]
      rw [if_neg (by omega)]
      split at hlast
      · omega
      · split at hlast
        · rw [if_neg (by omega)]
          omega
        · have hlen : (reply ++ [byte]).getD 4 0 = reply.getD 4 0 := by
            simp [List.getD_eq_getElem?_getD,
              List.getElem?_append_left (by omega : 4 < reply.length)]
          rw [if_neg (by omega), hlen]
          omega
      · omega
      · omega

theorem socksReply_wait {byte : UInt8}
    (hless : reply.length < replyLength cfg opState reply)
    (h : socksReply cfg op opState (reply ++ [byte]) = .wait) :
    (reply ++ [byte]).length < replyLength cfg opState (reply ++ [byte]) := by
  have hlength : (reply ++ [byte]).length = reply.length + 1 := by simp
  unfold replyLength at hless ⊢
  unfold socksReply at h
  by_cases hsocks5 : cfg.proxyType = .socks5
  · simp only [hsocks5, if_true] at h hless ⊢
    by_cases hmethod : opState = 1 ∨ opState = 2
    · simp only [hmethod, if_true] at h hless ⊢
      have hshort : (reply ++ [byte]).length ≠ 2 := by
        intro hlast
        unfold socks5Method at h
        simp only [hlast, ne_eq, not_true_eq_false, if_false] at h
        (repeat' split at h) <;> simp at h
      omega
    · simp only [hmethod, if_false] at h hless ⊢
      split at hless
      · rename_i hreply
        rw [if_pos hreply]
        unfold socks5Reply at h
        split at h
        · simp at h
        · have hle := @responseLength_le reply byte hless
          have hfour := four_le_responseLength (reply ++ [byte])
          split at h
          · unfold socks5Granted connected socks5Relay at h
            simp only at h
            (repeat' split at h) <;> simp at h
          · omega
      · omega
  · simp only [hsocks5, if_false] at h hless ⊢
    split at hless
    · rename_i hreply
      rw [if_pos hreply]
      have hshort : (reply ++ [byte]).length ≠ 8 := by
        intro hlast
        unfold socks4Reply connected socks4Listening at h
        simp only [hlast, ne_eq, not_true_eq_false, if_false] at h
        (repeat' split at h) <;> simp at h
      omega
    · omega

theorem feed_http_none {chunk : Bytes} (hhttp : isHttp cfg = true)
    (hop : p.op = some op)
    (hlimit : (p.reply ++ chunk).length ≤ headerLimit)
    (hend : findEnd (p.reply ++ chunk) = none) :
    p.feed cfg chunk = { p with reply := p.reply ++ chunk } := by
  induction chunk generalizing p with
  | nil => simp
  | cons byte chunk ih =>
    rw [List.append_cons] at hlimit hend
    have hnone : findEnd (p.reply ++ [byte]) = none := findEnd_left_none hend
    have hshort : ¬ headerLimit < (p.reply ++ [byte]).length := by
      rw [List.length_append] at hlimit
      omega
    have hbyte : onByte cfg p byte = { p with reply := p.reply ++ [byte] } := by
      simp only [onByte, hop, verdict, hhttp, if_true, hshort, if_false, hnone,
        Option.isSome_none, Bool.false_eq_true, Progress.carryOut]
    rw [feed_cons, hbyte]
    have hrest := @ih { p with reply := p.reply ++ [byte] } hop hlimit hend
    simpa using hrest

theorem feed_http_end {chunk : Bytes} (hhttp : isHttp cfg = true)
    (hop : p.op = some op) (hnone : findEnd p.reply = none)
    (hlimit : (p.reply ++ chunk).length ≤ headerLimit)
    (hend : findEnd (p.reply ++ chunk) = some n) :
    p.feed cfg chunk = (Progress.carryOut op
      (httpReply 0 [] ((p.reply ++ chunk).take n))
      { p with reply := (p.reply ++ chunk).take n }).feed cfg
        ((p.reply ++ chunk).drop n) := by
  induction chunk generalizing p with
  | nil => simp [hnone] at hend
  | cons byte chunk ih =>
    rw [List.append_cons] at hlimit hend ⊢
    have hshort : ¬ headerLimit < (p.reply ++ [byte]).length := by
      rw [List.length_append] at hlimit
      omega
    rw [feed_cons]
    cases hfound : findEnd (p.reply ++ [byte]) with
    | some m =>
      have hm := findEnd_snoc hnone hfound
      rw [findEnd_append hfound] at hend
      have hn : n = (p.reply ++ [byte]).length := by
        simp only [Option.some.injEq] at hend
        simp only [List.length_append, List.length_cons, List.length_nil]
        omega
      have hbyte : onByte cfg p byte = Progress.carryOut op
          (httpReply 0 [] (p.reply ++ [byte]))
          { p with reply := p.reply ++ [byte] } := by
        simp only [onByte, hop, verdict, hhttp, if_true, hshort, if_false,
          hfound, Option.isSome_some]
      rw [hbyte, hn, List.take_left, List.drop_left]
    | none =>
      have hbyte : onByte cfg p byte = { p with reply := p.reply ++ [byte] } := by
        simp only [onByte, hop, verdict, hhttp, if_true, hshort, if_false,
          hfound, Option.isSome_none, Bool.false_eq_true, Progress.carryOut]
      rw [hbyte]
      exact @ih { p with reply := p.reply ++ [byte] } hop hfound hlimit hend

theorem feed_http_long {chunk : Bytes} (hhttp : isHttp cfg = true)
    (hop : p.op = some op) (hreply : p.reply.length ≤ headerLimit)
    (hlimit : headerLimit < (p.reply ++ chunk).length)
    (hend : findEnd ((p.reply ++ chunk).take headerLimit) = none) :
    ∃ reply bytes, p.feed cfg chunk =
      (Progress.carryOut op headerTooLong { p with reply := reply }).feed cfg
        bytes := by
  obtain ⟨k, hk⟩ : ∃ k, headerLimit = p.reply.length + k :=
    ⟨_, (Nat.add_sub_of_le hreply).symm⟩
  rw [hk, List.take_length_add_append] at hend
  have hlong : k < chunk.length := by
    rw [List.length_append] at hlimit
    omega
  have hshort := @feed_http_none cfg op p (chunk.take k) hhttp hop
    (by simp only [List.length_append, List.length_take]; omega) hend
  have hchunk : chunk = chunk.take k ++ chunk.drop k :=
    (List.take_append_drop k chunk).symm
  cases hdrop : chunk.drop k with
  | nil =>
    have := congrArg List.length hdrop
    simp only [List.length_drop, List.length_nil] at this
    omega
  | cons byte rest =>
    rw [hchunk, hdrop, feed_append, hshort, feed_cons]
    refine ⟨p.reply ++ chunk.take k ++ [byte], rest, ?_⟩
    have hover : headerLimit < (p.reply ++ chunk.take k ++ [byte]).length := by
      simp only [List.length_append, List.length_take, List.length_cons,
        List.length_nil]
      omega
    simp only [onByte, hop, verdict, hhttp, if_true, hover]

theorem replyLength_pos {reply' : Bytes} (h : 0 < replyLength cfg opState reply) :
    0 < replyLength cfg opState reply' := by
  have hfour := four_le_responseLength reply'
  unfold replyLength at h ⊢
  (repeat' split at h) <;> simp_all
  omega

theorem carryOut_op {v : Verdict} (h : (Progress.carryOut op v p).op ≠ none) :
    v = .wait ∨ ∃ next, v.next? = some next ∧
      (Progress.carryOut op v p).opState = next ∧
      (Progress.carryOut op v p).reply = [] := by
  cases v with
  | wait => exact Or.inl rfl
  | failed notices clear => simp [Progress.carryOut, Progress.over] at h
  | request data next =>
    refine Or.inr ⟨next, rfl, ?_⟩
    unfold Progress.carryOut at h ⊢
    simp only at h ⊢
    split
    · exact ⟨rfl, rfl⟩
    · simp_all [Progress.over]
  | goOn notices next => exact Or.inr ⟨next, rfl, rfl, rfl⟩
  | succeeded notices relay => simp [Progress.carryOut, Progress.over] at h

theorem httpReply_next (stack : Nat) (heap buffer : Bytes) :
    (httpReply stack heap buffer).next? = none ∧
      httpReply stack heap buffer ≠ .wait := by
  unfold httpReply httpRefused connected
  split
  · split <;> simp [Verdict.next?]
  · simp [Verdict.next?]

theorem onByte_waiting (hop : p.op = some op) (h : Waiting cfg p) (byte : UInt8)
    (hpending : (onByte cfg p byte).op ≠ none) :
    Waiting cfg (onByte cfg p byte) := by
  have hbyte : onByte cfg p byte = Progress.carryOut op
      (verdict cfg op p.opState (p.reply ++ [byte]))
      { p with reply := p.reply ++ [byte] } := by simp [onByte, hop]
  rw [hbyte] at hpending ⊢
  unfold Waiting at h ⊢
  by_cases hhttp : isHttp cfg = true
  · rw [if_pos hhttp] at h ⊢
    obtain ⟨hnone, hlimit, hstate⟩ := h
    have hnext : verdict cfg op p.opState (p.reply ++ [byte]) = .wait := by
      obtain hwait | ⟨next, hnext, -⟩ := carryOut_op hpending
      · exact hwait
      · simp only [verdict, hhttp, if_true] at hnext
        split at hnext
        · simp [headerTooLong, Verdict.next?] at hnext
        · split at hnext
          · simp [(httpReply_next _ _ _).1] at hnext
          · simp [Verdict.next?] at hnext
    rw [hnext]
    simp only [verdict, hhttp, if_true] at hnext
    split at hnext
    · simp [headerTooLong] at hnext
    · rename_i hshort
      split at hnext
      · exact absurd hnext (httpReply_next _ _ _).2
      · rename_i hfound
        refine ⟨?_, by simpa [Progress.carryOut] using hshort, hstate⟩
        simpa [Progress.carryOut] using hfound
  · rw [if_neg hhttp] at h ⊢
    have hverdict : verdict cfg op p.opState (p.reply ++ [byte]) =
        socksReply cfg op p.opState (p.reply ++ [byte]) := by simp [verdict, hhttp]
    rw [hverdict] at hpending ⊢
    obtain hwait | ⟨next, hnext, hstate, hreply⟩ := carryOut_op hpending
    · rw [hwait]
      exact socksReply_wait h hwait
    · rw [hstate, hreply]
      exact socksReply_next (replyLength_pos (Nat.zero_lt_of_lt h)) hnext

theorem feed_waiting (hpending : (p.feed cfg bytes).op ≠ none)
    (h : Waiting cfg p) : Waiting cfg (p.feed cfg bytes) := by
  induction bytes generalizing p with
  | nil => exact h
  | cons byte bytes ih =>
    rw [feed_cons] at hpending ⊢
    have hnext : (onByte cfg p byte).op ≠ none := by
      intro hover
      rw [feed_over hover] at hpending
      exact hpending hover
    cases hop : p.op with
    | none => simp [onByte, hop] at hnext
    | some op => exact ih hpending (onByte_waiting hop h byte hnext)

end ProxyHandshake

end ProxyLane.Hook
