import Mathlib.Data.List.Find
import ProxyLane.Hook.Policy

/-!
# The dummy DNS table

`CDummyDNS` answers name lookups with addresses of its own from
`127.255.0.0/16` and `fdff::/16`, and remembers which name an address stands
for.  The table only grows, is searched newest first, and truncates names to
its fixed buffer, while the address counter wraps inside 16 bits.
-/

namespace ProxyLane.Hook

open ProxyLane.Foundation

namespace DummyDNS

structure Info where
  dummyIP : InAddr
  dummyIPv6 : In6Addr
  szHost : Bytes
  deriving DecidableEq, Repr

end DummyDNS

structure DummyDNS where
  dummyIP : Nat
  ls : List DummyDNS.Info
  deriving DecidableEq, Repr

namespace DummyDNS

/-- The constructor starts the counter at `127.255.0.0`. -/
def init : DummyDNS := ⟨0x7fff0000, []⟩

/-- `sizeof(info.szHost)`. -/
def hostSize : Nat := 256

def getNode (dns : DummyDNS) (name : Bytes) : Option Info :=
  dns.ls.find? fun it => sameText name it.szHost

/-- `fdff::` followed by the four octets of the IPv4 form. -/
def makeIPv6 (ip : InAddr) : In6Addr :=
  #v[0xfd, 0xff, 0, 0, 0, 0, 0, 0, 0, 0, 0, 0, ip.net, ip.host, ip.lh, ip.impno]

/-- The counter after `m_DummyIP++` and the wrap test. -/
def nextIP (dummyIP : Nat) : Nat :=
  let next := (dummyIP + 1) % 2 ^ 32
  if next > 0x7ffffffe then 0x7fff0000 else next

def makeInfo (dummyIP : Nat) (host : Bytes) : Info where
  dummyIP := .htonl dummyIP
  dummyIPv6 := makeIPv6 (.htonl dummyIP)
  szHost := host.take (hostSize - 1)

def getDummyIP (dns : DummyDNS) (host : Bytes) : InAddr × DummyDNS :=
  match dns.getNode host with
  | some node => (node.dummyIP, dns)
  | none =>
    let dummyIP := nextIP dns.dummyIP
    (.htonl dummyIP, ⟨dummyIP, makeInfo dummyIP host :: dns.ls⟩)

def getDummyIPv6 (dns : DummyDNS) (host : Bytes) : In6Addr × DummyDNS :=
  match dns.getNode host with
  | some node => (node.dummyIPv6, dns)
  | none =>
    let dns := (dns.getDummyIP host).2
    match dns.getNode host with
    | some node => (node.dummyIPv6, dns)
    | none => (.any, dns)

/-- `strncpy` into a buffer of `bufsize` bytes. -/
def getHostByIP (dns : DummyDNS) (dummyip : InAddr) (bufsize : Nat) :
    Option Bytes :=
  (dns.ls.find? fun it => it.dummyIP == dummyip).map fun it =>
    it.szHost.take bufsize

def getHostByIPv6 (dns : DummyDNS) (address : In6Addr) (bufsize : Nat) :
    Option Bytes :=
  if bufsize = 0 then none
  else (dns.ls.find? fun it => it.dummyIPv6 == address).map fun it =>
    it.szHost.take (bufsize - 1)

inductive Lookup where
  | ip (host : Bytes)
  | ipv6 (host : Bytes)
  deriving DecidableEq, Repr

inductive Answer where
  | ip (address : InAddr)
  | ipv6 (address : In6Addr)
  deriving DecidableEq, Repr

def Lookup.host : Lookup → Bytes
  | .ip host => host
  | .ipv6 host => host

def lookup (dns : DummyDNS) : Lookup → Answer × DummyDNS
  | .ip host => ((dns.getDummyIP host).map .ip id)
  | .ipv6 host => ((dns.getDummyIPv6 host).map .ipv6 id)

def run (dns : DummyDNS) : List Lookup → List (Lookup × Answer) × DummyDNS
  | [] => ([], dns)
  | request :: requests =>
    let (answer, dns) := dns.lookup request
    let (answers, dns) := dns.run requests
    ((request, answer) :: answers, dns)

/-- `IsDummyIP` or `IsDummyIPv6` of an answer. -/
def Answer.isDummy : Answer → Bool
  | .ip address => isDummyIP address
  | .ipv6 address => isDummyIPv6 address

/-- The name a later connection recovers from an answer, with the callers'
`sizeof(prcc.szDomainName)` buffer. -/
def hostOf (dns : DummyDNS) : Answer → Option Bytes
  | .ip address => dns.getHostByIP address hostSize
  | .ipv6 address => dns.getHostByIPv6 address hostSize

/-! ## Tables as host lists

As long as names fit their buffer, a table is determined by the list of the
hosts it was asked for, newest first: the `i`-th host owns the `i`-th address
of a cycle of 65535.
-/

def cycle : Nat := 65535

def addrAt (i : Nat) : Nat := 0x7fff0000 + i % cycle

def table : List Bytes → List Info
  | [] => []
  | host :: hosts => makeInfo (addrAt (hosts.length + 1)) host :: table hosts

def ofHosts (hosts : List Bytes) : DummyDNS :=
  ⟨addrAt hosts.length, table hosts⟩

def record (hosts : List Bytes) (host : Bytes) : List Bytes :=
  if foldCase host ∈ hosts.map foldCase then hosts else host :: hosts

/-- The form of the `i`-th address that a lookup asks for. -/
def answerAt (request : Lookup) (i : Nat) : Answer :=
  match request with
  | .ip _ => .ip (.htonl (addrAt i))
  | .ipv6 _ => .ipv6 (makeIPv6 (.htonl (addrAt i)))

theorem addrAt_lt (i : Nat) : addrAt i < 2 ^ 32 := by
  have := Nat.mod_lt i (show 0 < cycle by decide)
  simp only [addrAt, cycle] at *
  omega

theorem nextIP_addrAt (i : Nat) : nextIP (addrAt i) = addrAt (i + 1) := by
  simp only [nextIP]
  split <;> simp only [addrAt, cycle] at * <;> omega

variable {i : Nat}

theorem htonl_addrAt_inj {j : Nat} :
    InAddr.htonl (addrAt i) = InAddr.htonl (addrAt j) ↔ i % cycle = j % cycle := by
  rw [InAddr.htonl_inj (addrAt_lt i) (addrAt_lt j)]
  simp [addrAt]

private theorem isDummyIP_addrAt (i : Nat) : isDummyIP (.htonl (addrAt i)) := by
  have := Nat.mod_lt i (show 0 < cycle by decide)
  rw [isDummyIP, InAddr.ntohl_htonl (addrAt_lt i)]
  simp only [addrAt, cycle, Nat.shiftRight_eq_div_pow, beq_iff_eq] at *
  omega

theorem makeIPv6_inj {left right : InAddr} :
    makeIPv6 left = makeIPv6 right ↔ left = right := by
  cases left
  cases right
  simp [makeIPv6]

theorem answerAt_isDummy (request : Lookup) (i : Nat) :
    (answerAt request i).isDummy = true := by
  cases request with
  | ip host => exact isDummyIP_addrAt i
  | ipv6 host => rfl

variable {hosts : List Bytes}

theorem getNode_ofHosts_none {host : Bytes}
    (hfit : ∀ known ∈ hosts, known.length < hostSize)
    (hnew : foldCase host ∉ hosts.map foldCase) :
    (ofHosts hosts).getNode host = none := by
  simp only [getNode, ofHosts]
  induction hosts with
  | nil => rfl
  | cons known hosts ih =>
    simp only [List.map_cons, List.mem_cons, not_or] at hnew
    have hknown : known.length ≤ hostSize - 1 :=
      Nat.le_sub_one_of_lt (hfit known (by simp))
    rw [table, List.find?_cons_of_neg]
    · exact ih (fun other hother => hfit other (by simp [hother])) hnew.2
    · simpa [makeInfo, List.take_of_length_le hknown] using hnew.1

theorem getNode_ofHosts_some {host : Bytes}
    (hfit : ∀ known ∈ hosts, known.length < hostSize)
    (hold : foldCase host ∈ hosts.map foldCase) :
    ∃ newer known older, hosts = newer ++ known :: older ∧
      foldCase known = foldCase host ∧
      (ofHosts hosts).getNode host =
        some (makeInfo (addrAt (older.length + 1)) known) := by
  simp only [getNode, ofHosts]
  induction hosts with
  | nil => simp at hold
  | cons known hosts ih =>
    have hknown : known.length ≤ hostSize - 1 :=
      Nat.le_sub_one_of_lt (hfit known (by simp))
    by_cases hsame : foldCase host = foldCase known
    · refine ⟨[], known, hosts, rfl, hsame.symm, ?_⟩
      rw [table, List.find?_cons_of_pos]
      simpa [makeInfo, List.take_of_length_le hknown] using hsame
    · have htail : foldCase host ∈ hosts.map foldCase := by
        simpa [hsame] using hold
      obtain ⟨newer, other, older, rfl, hother, hfound⟩ :=
        ih (fun other hother => hfit other (by simp [hother])) htail
      refine ⟨known :: newer, other, older, rfl, hother, ?_⟩
      rw [table, List.find?_cons_of_neg, hfound]
      simpa [makeInfo, List.take_of_length_le hknown] using hsame

/-- A slot of the table: `host` is the `i`-th host that was recorded. -/
def Slot (hosts : List Bytes) (host : Bytes) (i : Nat) : Prop :=
  ∃ newer known older, hosts = newer ++ known :: older ∧
    foldCase known = foldCase host ∧ i = older.length + 1

theorem Slot.record {host : Bytes} (h : Slot hosts host i) (other : Bytes) :
    Slot (record hosts other) host i := by
  obtain ⟨newer, known, older, rfl, hknown, rfl⟩ := h
  simp only [DummyDNS.record]
  split
  · exact ⟨newer, known, older, rfl, hknown, rfl⟩
  · exact ⟨other :: newer, known, older, rfl, hknown, rfl⟩

theorem record_fits {host : Bytes} (hfit : ∀ known ∈ hosts, known.length < hostSize)
    (hhost : host.length < hostSize) :
    ∀ known ∈ record hosts host, known.length < hostSize := by
  simp only [record]
  split
  · exact hfit
  · simpa using ⟨hhost, hfit⟩

theorem lookup_ofHosts (request : Lookup)
    (hfit : ∀ known ∈ hosts, known.length < hostSize)
    (hhost : request.host.length < hostSize) :
    ∃ i, Slot (record hosts request.host) request.host i ∧
      (ofHosts hosts).lookup request =
        (answerAt request i, ofHosts (record hosts request.host)) := by
  by_cases hold : foldCase request.host ∈ hosts.map foldCase
  · obtain ⟨newer, known, older, hhosts, hknown, hnode⟩ :=
      getNode_ofHosts_some hfit hold
    refine ⟨older.length + 1, ?_, ?_⟩
    · simp only [record, if_pos hold]
      exact ⟨newer, known, older, hhosts, hknown, rfl⟩
    · cases request <;>
        simp_all [lookup, getDummyIP, getDummyIPv6, Lookup.host, record,
          answerAt, makeInfo]
  · have hnone := getNode_ofHosts_none hfit hold
    have htake : request.host.take (hostSize - 1) = request.host :=
      List.take_of_length_le (Nat.le_sub_one_of_lt hhost)
    have hget : (ofHosts hosts).getDummyIP request.host =
        (.htonl (addrAt (hosts.length + 1)), ofHosts (request.host :: hosts)) := by
      rw [getDummyIP, hnone]
      simp [ofHosts, table, nextIP_addrAt]
    have hrecord : record hosts request.host = request.host :: hosts := by
      simp only [record, if_neg hold]
    rw [hrecord]
    refine ⟨hosts.length + 1, ⟨[], request.host, hosts, rfl, rfl, rfl⟩, ?_⟩
    · cases request with
      | ip host =>
        simp only [Lookup.host] at *
        simp [lookup, hget, answerAt]
      | ipv6 host =>
        simp only [Lookup.host] at *
        have hfound : (ofHosts (host :: hosts)).getNode host =
            some (makeInfo (addrAt (hosts.length + 1)) host) := by
          rw [getNode, ofHosts, table, List.find?_cons_of_pos]
          simp [makeInfo, htake]
        simp [lookup, getDummyIPv6, hnone, hget, hfound, answerAt, makeInfo]

def hostsAfter (hosts : List Bytes) (requests : List Lookup) : List Bytes :=
  requests.foldl (fun hosts request => record hosts request.host) hosts

def Fits (requests : List Lookup) : Prop :=
  ∀ request ∈ requests, request.host.length < hostSize

def distinctHosts (requests : List Lookup) : Nat :=
  (requests.map fun request => foldCase request.host).dedup.length

theorem Slot.hostsAfter {host : Bytes}
    (h : Slot hosts host i) (requests : List Lookup) :
    Slot (hostsAfter hosts requests) host i := by
  induction requests generalizing hosts with
  | nil => exact h
  | cons request requests ih => exact ih (h.record request.host)

theorem hostsAfter_fits {hosts : List Bytes} {requests : List Lookup}
    (hfit : ∀ known ∈ hosts, known.length < hostSize)
    (hrequests : Fits requests) :
    ∀ known ∈ hostsAfter hosts requests, known.length < hostSize := by
  induction requests generalizing hosts with
  | nil => exact hfit
  | cons request requests ih =>
    exact ih (record_fits hfit (hrequests request (by simp)))
      (fun other hother => hrequests other (by simp [hother]))

theorem run_ofHosts {hosts : List Bytes} {requests : List Lookup}
    (hfit : ∀ known ∈ hosts, known.length < hostSize)
    (hrequests : Fits requests) :
    ((ofHosts hosts).run requests).2 = ofHosts (hostsAfter hosts requests) ∧
      ((ofHosts hosts).run requests).1.map Prod.fst = requests ∧
      ∀ entry ∈ ((ofHosts hosts).run requests).1,
        ∃ i, Slot (hostsAfter hosts requests) entry.1.host i ∧
          entry.2 = answerAt entry.1 i := by
  induction requests generalizing hosts with
  | nil => simp [run, DummyDNS.hostsAfter]
  | cons request requests ih =>
    have hhost := hrequests request (by simp)
    obtain ⟨i, hslot, hlookup⟩ := lookup_ofHosts request hfit hhost
    obtain ⟨hstate, hasked, hanswers⟩ :=
      ih (record_fits hfit hhost)
        (fun other hother => hrequests other (by simp [hother]))
    simp only [run, hlookup, DummyDNS.hostsAfter, List.foldl_cons]
    refine ⟨hstate, by simp [hasked], ?_⟩
    rintro entry (_ | ⟨_, hentry⟩)
    · exact ⟨i, hslot.hostsAfter requests, rfl⟩
    · exact hanswers entry hentry

theorem hostsAfter_nodup {hosts : List Bytes} (requests : List Lookup)
    (hnodup : (hosts.map foldCase).Nodup) :
    ((hostsAfter hosts requests).map foldCase).Nodup := by
  induction requests generalizing hosts with
  | nil => exact hnodup
  | cons request requests ih =>
    apply ih
    simp only [record]
    split
    · exact hnodup
    · rename_i hnew
      rw [List.map_cons]
      exact List.nodup_cons.mpr ⟨hnew, hnodup⟩

variable {requests : List Lookup}

theorem mem_hostsAfter {text : Bytes} :
    text ∈ (hostsAfter hosts requests).map foldCase ↔
      text ∈ hosts.map foldCase ∨
        text ∈ requests.map fun request => foldCase request.host := by
  induction requests generalizing hosts with
  | nil => simp [hostsAfter]
  | cons request requests ih =>
    rw [hostsAfter, List.foldl_cons, ← hostsAfter, ih, List.map_cons, List.mem_cons]
    have hrecord : text ∈ (record hosts request.host).map foldCase ↔
        text ∈ hosts.map foldCase ∨ text = foldCase request.host := by
      simp only [record]
      split
      · constructor
        · exact Or.inl
        · rintro (h | rfl)
          · exact h
          · assumption
      · rw [List.map_cons, List.mem_cons, or_comm]
    rw [hrecord, or_assoc]

theorem hostsAfter_length (requests : List Lookup) :
    (hostsAfter [] requests).length = distinctHosts requests := by
  have hperm : ((hostsAfter [] requests).map foldCase).Perm
      (requests.map fun request => foldCase request.host).dedup := by
    rw [List.perm_ext_iff_of_nodup
      (hostsAfter_nodup requests (by simp)) (List.nodup_dedup _)]
    intro text
    rw [mem_hostsAfter, List.mem_dedup]
    simp
  rw [distinctHosts, ← hperm.length_eq, List.length_map]

/-- The entry sits on the `i`-th address of the cycle. -/
def owns (i : Nat) (info : Info) : Bool := info.dummyIP == .htonl (addrAt i)

@[simp] theorem owns_makeInfo (i j : Nat) (host : Bytes) :
    owns i (makeInfo (addrAt j) host) = true ↔ j % cycle = i % cycle := by
  simp only [owns, makeInfo, beq_iff_eq, htonl_addrAt_inj]

theorem mem_table {info : Info} (h : info ∈ table hosts) :
    ∃ i host, info = makeInfo (addrAt i) host := by
  induction hosts with
  | nil => simp [table] at h
  | cons host hosts ih =>
    rcases List.mem_cons.mp h with rfl | h
    · exact ⟨_, _, rfl⟩
    · exact ih h

theorem hostOf_answerAt (hosts : List Bytes) (request : Lookup) (i : Nat) :
    (ofHosts hosts).hostOf (answerAt request i) =
      ((table hosts).find? (owns i)).map (·.szHost) := by
  have hmap : ∀ (found : Option Info) (size : Nat), hostSize - 1 ≤ size →
      found = (table hosts).find? (owns i) →
      found.map (fun it => it.szHost.take size) = found.map (·.szHost) := by
    intro found size hsize hfound
    cases found with
    | none => rfl
    | some info =>
      obtain ⟨j, host, rfl⟩ := mem_table (List.mem_of_find?_eq_some hfound.symm)
      simp only [Option.map_some, makeInfo, List.take_take, Nat.min_eq_right hsize]
  cases request with
  | ip host =>
    exact hmap _ hostSize (by decide) rfl
  | ipv6 host =>
    have hsix : (table hosts).find?
        (fun it => it.dummyIPv6 == makeIPv6 (.htonl (addrAt i))) =
        (table hosts).find? (owns i) := by
      apply List.find?_congr
      intro info hinfo
      obtain ⟨j, host, rfl⟩ := mem_table hinfo
      simp [owns, makeInfo, Bool.beq_eq_decide_eq, makeIPv6_inj]
    simp only [answerAt, hostOf, getHostByIPv6, ofHosts, hsix]
    rw [if_neg (by decide)]
    exact hmap _ (hostSize - 1) (by decide) rfl

theorem find_slot {newer older : List Bytes} {known : Bytes}
    (hlength : (newer ++ known :: older).length ≤ cycle) :
    (table (newer ++ known :: older)).find? (owns (older.length + 1)) =
      some (makeInfo (addrAt (older.length + 1)) known) := by
  induction newer with
  | nil =>
    rw [List.nil_append, table, List.find?_cons_of_pos]
    simp
  | cons host newer ih =>
    simp only [List.cons_append, List.length_cons] at hlength ⊢
    rw [table, List.find?_cons_of_neg, ih (by omega)]
    rw [owns_makeInfo]
    simp only [List.length_append, List.length_cons, cycle] at hlength ⊢
    omega

theorem find_newer {newer older : List Bytes} {i j : Nat}
    (hnewer : older.length < j) (hj : j ≤ (newer ++ older).length)
    (hsame : j % cycle = i % cycle) :
    ∃ host ∈ newer, ∃ k, (table (newer ++ older)).find? (owns i) =
      some (makeInfo (addrAt k) host) := by
  induction newer with
  | nil => simp at hj; omega
  | cons host newer ih =>
    rw [List.cons_append, table]
    by_cases hhead :
        owns i (makeInfo (addrAt ((newer ++ older).length + 1)) host) = true
    · exact ⟨host, by simp, _, List.find?_cons_of_pos hhead⟩
    · rw [List.find?_cons_of_neg hhead]
      have hne : j ≠ (newer ++ older).length + 1 := by
        rintro rfl
        exact hhead ((owns_makeInfo _ _ _).mpr hsame)
      simp only [List.cons_append, List.length_cons] at hj
      obtain ⟨other, hother, k, hk⟩ := ih (by omega)
      exact ⟨other, by simp [hother], k, hk⟩

theorem lookup_szHost {dns : DummyDNS} (request : Lookup)
    (hfit : ∀ info ∈ dns.ls, info.szHost.length < hostSize) :
    ∀ info ∈ (dns.lookup request).2.ls, info.szHost.length < hostSize := by
  have hnew : ∀ host, ∀ info ∈ (dns.getDummyIP host).2.ls,
      info.szHost.length < hostSize := by
    intro host
    rw [getDummyIP]
    split
    · exact hfit
    · rintro info (_ | ⟨_, hinfo⟩)
      · simp [makeInfo, hostSize]
      · exact hfit info hinfo
  cases request with
  | ip host => exact hnew host
  | ipv6 host =>
    simp only [lookup, getDummyIPv6]
    split
    · exact hfit
    · split <;> exact hnew host

theorem run_szHost {dns : DummyDNS} (requests : List Lookup)
    (hfit : ∀ info ∈ dns.ls, info.szHost.length < hostSize) :
    ∀ info ∈ (dns.run requests).2.ls, info.szHost.length < hostSize := by
  induction requests generalizing dns with
  | nil => exact hfit
  | cons request requests ih => exact ih (lookup_szHost request hfit)

theorem hostOf_length {dns : DummyDNS} {answer : Answer} {name : Bytes}
    (hfit : ∀ info ∈ dns.ls, info.szHost.length < hostSize)
    (h : dns.hostOf answer = some name) : name.length < hostSize := by
  cases answer with
  | ip address =>
    obtain ⟨info, hinfo, rfl⟩ := Option.map_eq_some_iff.mp h
    have := hfit info (List.mem_of_find?_eq_some hinfo)
    rw [List.length_take]
    omega
  | ipv6 address =>
    obtain ⟨info, hinfo, rfl⟩ := Option.map_eq_some_iff.mp h
    have := hfit info (List.mem_of_find?_eq_some hinfo)
    rw [List.length_take]
    omega

/--
What the table owes its callers after the answers of `history`: different
hosts hold different addresses, every address is recognised as a dummy, and
every address still leads back to the full name of its host.
-/
structure Lasting (history : List (Lookup × Answer)) (dns : DummyDNS) :
    Prop where
  injective : ∀ first ∈ history, ∀ second ∈ history,
    first.2 = second.2 → sameText first.1.host second.1.host
  dummy : ∀ entry ∈ history, entry.2.isDummy
  recovers : ∀ entry ∈ history, ∃ name,
    dns.hostOf entry.2 = some name ∧ sameText name entry.1.host

theorem lasting_of_capacity (hfit : Fits requests)
    (hcount : distinctHosts requests ≤ cycle) :
    Lasting (init.run requests).1 (init.run requests).2 := by
  obtain ⟨hstate, -, hanswers⟩ :=
    @run_ofHosts [] _ (by simp) hfit
  change (init.run requests).2 = _ at hstate
  have hrecovers : ∀ entry ∈ (init.run requests).1, ∃ name,
      (init.run requests).2.hostOf entry.2 = some name ∧
        sameText name entry.1.host := by
    intro entry hentry
    obtain ⟨i, ⟨newer, known, older, hhosts, hknown, rfl⟩, hanswer⟩ :=
      hanswers entry hentry
    have hlength : (newer ++ known :: older).length ≤ cycle := by
      rw [← hhosts, hostsAfter_length]
      exact hcount
    have hshort : known.length < hostSize :=
      @hostsAfter_fits [] _ (by simp) hfit known (by simp [hhosts])
    refine ⟨known, ?_, sameText_iff.mpr hknown⟩
    rw [hstate, hanswer, hhosts, hostOf_answerAt, find_slot hlength]
    simp [makeInfo, List.take_of_length_le (Nat.le_sub_one_of_lt hshort)]
  refine ⟨?_, ?_, hrecovers⟩
  · -- Equal answers lead back to one name, so injectivity follows.
    intro first hfirst second hsecond hsame
    obtain ⟨name, hname, htext⟩ := hrecovers first hfirst
    obtain ⟨other, hother, hotherText⟩ := hrecovers second hsecond
    rw [hsame, hother] at hname
    cases hname
    rw [sameText_iff] at *
    rw [← htext, hotherText]
  · intro entry hentry
    obtain ⟨i, -, hanswer⟩ := hanswers entry hentry
    rw [hanswer]
    exact answerAt_isDummy _ _

theorem fits_of_lasting
    (h : ∀ done, done <+: requests → Lasting (init.run done).1 (init.run done).2) :
    Fits requests := by
  have hlast := h requests List.prefix_rfl
  have hasked : ∀ (dns : DummyDNS) (requests : List Lookup),
      (dns.run requests).1.map Prod.fst = requests := by
    intro dns requests
    induction requests generalizing dns with
    | nil => rfl
    | cons request requests ih => simp [run, ih]
  intro request hrequest
  rw [← hasked init requests, List.mem_map] at hrequest
  obtain ⟨entry, hentry, rfl⟩ := hrequest
  obtain ⟨name, hname, htext⟩ := hlast.recovers entry hentry
  have hlength : name.length < hostSize :=
    hostOf_length (run_szHost requests (by simp [init])) hname
  rw [← foldCase_length, ← sameText_iff.mp htext, foldCase_length]
  exact hlength

theorem Slot.eq_one_of_oldest {newer : List Bytes} {oldest host : Bytes}
    (h : Slot (newer ++ [oldest]) host i)
    (hnodup : ((newer ++ [oldest]).map foldCase).Nodup)
    (hsame : foldCase host = foldCase oldest) : i = 1 := by
  obtain ⟨front, known, back, hsplit, hknown, rfl⟩ := h
  rcases List.eq_nil_or_concat' back with rfl | ⟨back, last, rfl⟩
  · rfl
  · have hconcat : newer ++ [oldest] = (front ++ known :: back) ++ [last] := by
      simpa using hsplit
    obtain ⟨rfl, hlast⟩ := List.append_inj' hconcat rfl
    simp only [List.map_append, List.map_cons, hknown, hsame,
      List.nodup_append, List.mem_append, List.mem_cons] at hnodup
    exact absurd rfl (hnodup.2.2 _ (Or.inr (Or.inl rfl)) _ (by simp))

theorem capacity_of_lasting (hfit : Fits requests)
    (h : Lasting (init.run requests).1 (init.run requests).2) :
    distinctHosts requests ≤ cycle := by
  by_contra hover
  rw [← hostsAfter_length] at hover
  obtain ⟨hstate, hasked, hanswers⟩ :=
    @run_ofHosts [] _ (by simp) hfit
  change (init.run requests).2 = _ at hstate
  -- The oldest host shares its address with the one 65535 places later.
  obtain ⟨newer, oldest, hhosts⟩ : ∃ newer oldest,
      hostsAfter [] requests = newer ++ [oldest] := by
    rcases List.eq_nil_or_concat' (hostsAfter [] requests) with
      hnil | hconcat
    · simp [hnil, cycle] at hover
    · exact hconcat
  have hold : foldCase oldest ∈
      requests.map fun request => foldCase request.host := by
    have : foldCase oldest ∈ (hostsAfter [] requests).map foldCase := by
      simp [hhosts]
    simpa using mem_hostsAfter.mp this
  obtain ⟨request, hrequest, hsame⟩ := List.mem_map.mp hold
  rw [← hasked] at hrequest
  obtain ⟨entry, hentry, rfl⟩ := List.mem_map.mp hrequest
  obtain ⟨i, hslot, hanswer⟩ := hanswers entry hentry
  have hnodup := @hostsAfter_nodup [] requests (by simp)
  rw [hhosts] at hslot hnodup hover
  obtain rfl := hslot.eq_one_of_oldest hnodup hsame
  obtain ⟨name, hname, htext⟩ := h.recovers entry hentry
  rw [hstate, hanswer, hostOf_answerAt, hhosts] at hname
  obtain ⟨host, hhost, k, hfind⟩ :=
    @find_newer newer [oldest] 1 (cycle + 1) (by simp [cycle]) (by omega) (by simp)
  rw [hfind] at hname
  have hshort : host.length < hostSize :=
    @hostsAfter_fits [] _ (by simp) hfit host (by simp [hhosts, hhost])
  have hfull : name = host := by
    simpa [makeInfo, List.take_of_length_le (Nat.le_sub_one_of_lt hshort)]
      using hname.symm
  subst hfull
  rw [sameText_iff, hsame] at htext
  simp only [List.map_append, List.map_cons, List.map_nil,
    List.nodup_append, List.mem_map] at hnodup
  exact hnodup.2.2 _ ⟨name, hhost, rfl⟩ _ (by simp) htext

/--
The table is a lasting injection after every part of a run exactly when all
names fit the 255 bytes of their buffer and the run asks for at most 65535
different hosts.
-/
theorem lasting_iff_capacity (requests : List Lookup) :
    (∀ done, done <+: requests → Lasting (init.run done).1 (init.run done).2) ↔
    (∀ request ∈ requests, request.host.length ≤ 255) ∧
      distinctHosts requests ≤ 65535 := by
  have hfits : Fits requests ↔
      ∀ request ∈ requests, request.host.length ≤ 255 := by
    simp only [Fits, hostSize, Nat.lt_succ_iff]
  rw [← hfits]
  constructor
  · intro h
    have hfit := fits_of_lasting h
    exact ⟨hfit, capacity_of_lasting hfit (h requests List.prefix_rfl)⟩
  · rintro ⟨hfit, hcount⟩ done hdone
    apply lasting_of_capacity
    · exact fun request hrequest => hfit request (hdone.subset hrequest)
    · have hsub : (done.map fun request => foldCase request.host).dedup ⊆
          (requests.map fun request => foldCase request.host).dedup := by
        intro text
        simp only [List.mem_dedup]
        exact fun h => (List.IsPrefix.map _ hdone).subset h
      exact ((List.nodup_dedup _).subperm hsub).length_le.trans hcount

theorem long_name_not_lasting :
    ¬ ∀ done, done <+: [Lookup.ip (List.replicate 256 97)] →
      Lasting (init.run done).1 (init.run done).2 := by
  intro h
  have hfit := fits_of_lasting h _ (List.mem_singleton_self _)
  rw [Lookup.host, List.length_replicate] at hfit
  exact absurd hfit (by decide)

end DummyDNS

end ProxyLane.Hook
