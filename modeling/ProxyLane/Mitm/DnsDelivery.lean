import ProxyLane.Mitm.Dns

/-!
# Delivery of DNS records

Every record the tracker makes is returned to the caller or sent to the
journal; the records dropped from a long answer at the end of a connection
have been sent before.  None of this depends on the disk.
-/

namespace ProxyLane.Mitm

open Foundation Protocol

namespace Dns

variable {lib : DnsLib} {disk : Disk} {s s' s'' : Dns}

structure Quiet (s s' : Dns) : Prop where
  log : s'.log = s.log
  calls : ∃ more, s'.calls = s.calls ++ more ∧ ∀ r, .record r ∉ more
  seen : s.seen ⊆ s'.seen

theorem Quiet.refl (s : Dns) : Quiet s s :=
  ⟨rfl, ⟨[], by simp⟩, List.Subset.refl _⟩

theorem Quiet.trans (h : Quiet s s') (h' : Quiet s' s'') : Quiet s s'' := by
  obtain ⟨more, hmore, hnone⟩ := h.calls
  obtain ⟨more', hmore', hnone'⟩ := h'.calls
  refine ⟨h'.log.trans h.log, ⟨more ++ more', ?_, ?_⟩,
    List.Subset.trans h.seen h'.seen⟩
  · rw [hmore', hmore, List.append_assoc]
  · intro r hr
    rcases List.mem_append.1 hr with hr | hr
    · exact hnone r hr
    · exact hnone' r hr

/-- The records in `out` become those in `out'`. -/
structure Emits (s : Dns) (out : List DnsRecord) (s' : Dns)
    (out' : List DnsRecord) : Prop where
  made : ∃ more, s'.log = s.log ++ more ∧
    (∀ e ∈ more, e.id = e.about.1.id ∧ e.finished = e.about.1.finished ∧
      (e.about.1 ∈ out' ∨ .record e.about.1 ∈ s'.calls)) ∧
    out'.Sublist (out ++ more.map fun e => e.about.1) ∧
    ∀ r, .record r ∈ s'.calls → .record r ∈ s.calls ∨ r ∈ more.map fun e => e.about.1
  kept : ∀ r ∈ out, r ∈ out' ∨ .record r ∈ s'.calls
  calls : s.calls ⊆ s'.calls
  seen : s.seen ⊆ s'.seen

theorem Quiet.emits (h : Quiet s s') (out : List DnsRecord) :
    Emits s out s' out := by
  obtain ⟨more, hmore, hnone⟩ := h.calls
  refine ⟨⟨[], by simp [h.log], by simp, by simp, ?_⟩, fun r hr => Or.inl hr,
    ?_, h.seen⟩
  · intro r hr
    rw [hmore] at hr
    rcases List.mem_append.1 hr with hr | hr
    · exact Or.inl hr
    · exact absurd hr (hnone r)
  · rw [hmore]
    exact List.subset_append_left _ _

theorem Emits.trans {out out' out'' : List DnsRecord} (h : Emits s out s' out')
    (h' : Emits s' out' s'' out'') : Emits s out s'' out'' := by
  obtain ⟨more, hlog, hdone, hsub, hjournal⟩ := h.made
  obtain ⟨more', hlog', hdone', hsub', hjournal'⟩ := h'.made
  -- what was returned before is still returned, or in the journal
  have hstill : ∀ r, r ∈ out' ∨ .record r ∈ s'.calls →
      r ∈ out'' ∨ .record r ∈ s''.calls := by
    rintro r (hr | hr)
    · exact h'.kept r hr
    · exact Or.inr (h'.calls hr)
  refine ⟨⟨more ++ more', ?_, ?_, ?_, ?_⟩, ?_, List.Subset.trans h.calls h'.calls,
    List.Subset.trans h.seen h'.seen⟩
  · rw [hlog', hlog, List.append_assoc]
  · intro e he
    rcases List.mem_append.1 he with he | he
    · exact ⟨(hdone e he).1, (hdone e he).2.1, hstill _ (hdone e he).2.2⟩
    · exact hdone' e he
  · rw [List.map_append, ← List.append_assoc]
    exact hsub'.trans (hsub.append_right _)
  · intro r hr
    rw [List.map_append, List.mem_append, ← or_assoc]
    rcases hjournal' r hr with hr | hr
    · exact Or.inl (hjournal r hr)
    · exact Or.inr hr
  · exact fun r hr => hstill r (h.kept r hr)

theorem Emits.after {out : List DnsRecord} (h : Emits s [] s' out)
    (before : List DnsRecord) : Emits s before s' (before ++ out) := by
  obtain ⟨more, hlog, hdone, hsub, hjournal⟩ := h.made
  refine ⟨⟨more, hlog, ?_, ?_, hjournal⟩, ?_, h.calls, h.seen⟩
  · intro e he
    obtain ⟨hid, hend, hwhere⟩ := hdone e he
    exact ⟨hid, hend, hwhere.imp_left (List.mem_append_right _)⟩
  · exact List.Sublist.append_left (by simpa using hsub) before
  · exact fun r hr => Or.inl (List.mem_append_left _ hr)

theorem emits_report (s : Dns) (key : String) (r : DnsRecord)
    (answer : Option Packet) (out : List DnsRecord) :
    Emits s out (s.report key r answer) (out ++ [r]) := by
  refine ⟨⟨[⟨r.id, key, r.finished, r, answer⟩], rfl, ?_, ?_, ?_⟩, ?_,
    List.Subset.refl _, List.Subset.refl _⟩
  · simp
  · simp
  · exact fun r hr => Or.inl hr
  · exact fun r hr => Or.inl (List.mem_append_left _ hr)

theorem quiet_access (s : Dns) : Quiet s s.access :=
  ⟨rfl, ⟨[], by simp [access]⟩, List.Subset.refl _⟩

theorem quiet_hold (s : Dns) (pending : List Transaction)
    (files : List (String × Transaction)) : Quiet s (s.hold pending files) :=
  ⟨rfl, ⟨[], by simp [hold]⟩, List.Subset.refl _⟩

theorem quiet_call (s : Dns) {calls : List CacheCall}
    (h : ∀ r, .record r ∉ calls) : Quiet s (s.call calls) :=
  ⟨rfl, ⟨calls, rfl, h⟩, List.Subset.refl _⟩

theorem quiet_finish (s : Dns) (t : Transaction) : Quiet s (s.finish t) := by
  unfold finish
  split
  · exact quiet_call s (by simp)
  · exact Quiet.refl s

theorem quiet_failRecording (s : Dns) (cache : Option CacheHandle)
    (reason : String) : Quiet s (s.failRecording cache reason) := by
  unfold failRecording
  split
  · exact quiet_call s (by simp)
  · exact Quiet.refl s

theorem quiet_duplicate (s : Dns) (cache : Option CacheHandle)
    (side : Direction) (bytes : Bytes) :
    Quiet s (s.duplicate cache side bytes) := by
  unfold duplicate
  split
  · exact quiet_call s (by simp)
  · exact Quiet.refl s

theorem quiet_workingWrite (disk : Disk) (s : Dns) (name : String)
    (content : Option Transaction) :
    Quiet s (s.workingWrite disk name content).1 := by
  unfold workingWrite
  dsimp only
  split
  · exact quiet_access s
  · exact (quiet_access s).trans (quiet_hold _ _ _)

theorem quiet_spillOldest (lib : DnsLib) (disk : Disk) (s : Dns) :
    Quiet s (s.spillOldest lib disk).1 := by
  unfold spillOldest
  split
  · exact (quiet_hold _ _ _).trans (quiet_workingWrite _ _ _ _)
  · exact Quiet.refl s

theorem quiet_takeBack (lib : DnsLib) (disk : Disk) (s : Dns) (clock : Clock)
    (name key : String) (value : Transaction) :
    Quiet s (s.takeBack lib disk clock name key value).1 := by
  have hroom : Quiet s (if pendingLimit ≤ s.pending.length then
      s.spillOldest lib disk else (s, none)).1 := by
    split
    · exact quiet_spillOldest lib disk s
    · exact Quiet.refl s
  unfold takeBack
  generalize (if pendingLimit ≤ s.pending.length then
    s.spillOldest lib disk else (s, none)) = made at hroom
  obtain ⟨u, failed⟩ := made
  cases failed with
  | some e => exact hroom
  | none =>
    have hentry : Quiet u (if value.cache.isSome then
        (u.access, disk.fault u.accesses) else (u, none)).1 := by
      split
      · exact quiet_access u
      · exact Quiet.refl u
    dsimp only
    generalize (if value.cache.isSome then
      (u.access, disk.fault u.accesses) else (u, none)) = found at hentry
    obtain ⟨v, failed⟩ := found
    cases failed with
    | some e => exact hroom.trans hentry
    | none =>
      have hwrite := quiet_workingWrite disk v name none
      dsimp only
      generalize v.workingWrite disk name none = written at hwrite
      obtain ⟨w, failed⟩ := written
      cases failed with
      | some e => exact (hroom.trans hentry).trans hwrite
      | none =>
        exact ((hroom.trans hentry).trans hwrite).trans (quiet_hold _ _ _)

theorem quiet_restoreQuery (lib : DnsLib) (disk : Disk) (s : Dns)
    (clock : Clock) (key : String) :
    Quiet s (s.restoreQuery lib disk clock key).1 := by
  unfold restoreQuery
  split
  · exact Quiet.refl s
  · split
    · exact Quiet.refl s
    · dsimp only
      split
      · split
        · exact (quiet_access s).trans (quiet_access _)
        · exact ((quiet_access s).trans (quiet_access _)).trans
            (quiet_takeBack _ _ _ _ _ _ _)
      · exact quiet_access s

theorem quiet_recall (lib : DnsLib) (disk : Disk) (s : Dns)
    (cache : Option CacheHandle) (clock : Clock) (key : String) :
    Quiet s (s.recallQuery lib disk cache clock key) := by
  have hseen : Quiet s { s with seen := s.seen ++ [key] } :=
    ⟨rfl, ⟨[], by simp⟩, List.subset_append_left _ _⟩
  have hrestore := hseen.trans (quiet_restoreQuery lib disk
    { s with seen := s.seen ++ [key] } clock key)
  unfold recallQuery
  split
  case h_1 u e heq =>
    rw [heq] at hrestore
    exact hrestore.trans (quiet_failRecording _ _ _)
  case h_2 u heq =>
    rw [heq] at hrestore
    exact hrestore

theorem quiet_startSpill (s : Dns) (cache : Option CacheHandle) :
    Quiet s (s.startSpill cache) := by
  unfold startSpill
  split
  · split
    · exact ⟨rfl, ⟨[], by simp⟩, List.Subset.refl _⟩
    · exact Quiet.refl s
  · exact Quiet.refl s

theorem quiet_create (s : Dns) (cache : Option CacheHandle) (clock : Clock)
    (side : Direction) (bytes : Bytes) (packet : Except String Packet) :
    Quiet s (s.create cache clock side bytes packet).1 := by
  unfold create
  dsimp only
  split
  · exact ⟨rfl, ⟨[.stream (s.entries + 1),
      .appendStream (s.entries + 1) side bytes], by simp [call]⟩,
      List.Subset.refl _⟩
  · exact ⟨rfl, ⟨[], by simp⟩, List.Subset.refl _⟩

theorem quiet_ended (s : Dns) (t : Transaction) (rest : List Transaction) :
    Quiet s ((s.hold rest s.files).finish t) :=
  (quiet_hold s rest s.files).trans (quiet_finish _ t)

theorem Quiet.journaled (h : Quiet s s') {out kept : List DnsRecord}
    (hout : ∀ r ∈ out, .record r ∈ s.calls) (hkept : kept.Sublist out)
    (key : String) (r : DnsRecord) (answer : Option Packet) :
    Emits s out ((s'.report key r answer).call [.record r]) (kept ++ [r]) ∧
      ∀ a ∈ kept ++ [r],
        .record a ∈ ((s'.report key r answer).call [.record r]).calls := by
  obtain ⟨more, hmore, hnone⟩ := h.calls
  have hcalls : ((s'.report key r answer).call [.record r]).calls =
      s.calls ++ more ++ [.record r] := by
    simp [call, report, hmore]
  have hsub : s.calls ⊆ s.calls ++ more ++ [.record r] := by
    intro c hc
    simp [hc]
  rw [← hcalls] at hsub
  refine ⟨⟨⟨[⟨r.id, key, r.finished, r, answer⟩], ?_, ?_, ?_, ?_⟩, ?_, hsub,
    h.seen⟩, ?_⟩
  · simp [call, report, h.log]
  · simp
  · exact hkept.append_right _
  · intro a ha
    rw [hcalls] at ha
    have hmem := hnone a
    simp only [List.mem_append, List.mem_singleton, CacheCall.record.injEq] at ha
    simp only [List.map_cons, List.map_nil, List.mem_singleton]
    tauto
  · exact fun a ha => Or.inr (hsub (hout a ha))
  · intro a ha
    rcases List.mem_append.1 ha with ha | ha
    · exact hsub (hout a (hkept.subset ha))
    · rw [List.mem_singleton.1 ha, hcalls]
      simp

theorem emits_flush (reason : String) (clock : Clock) (ts : List Transaction)
    (s : Dns) {out : List DnsRecord} (hout : ∀ r ∈ out, .record r ∈ s.calls) :
    Emits s out (flush reason clock ts s out).1 (flush reason clock ts s out).2 ∧
      ∀ r ∈ (flush reason clock ts s out).2,
        .record r ∈ (flush reason clock ts s out).1.calls := by
  induction ts generalizing s out with
  | nil => exact ⟨(Quiet.refl s).emits out, hout⟩
  | cons t rest ih =>
    have hkept : (if pendingLimit ≤ out.length then out.drop 1 else
        out).Sublist out := by
      split
      · exact List.drop_sublist 1 out
      · exact List.Sublist.refl out
    obtain ⟨hone, hin⟩ := (quiet_ended s t rest).journaled hout hkept t.key
      (t.record clock "Incomplete" (some reason) true) none
    obtain ⟨hrest, hall⟩ := ih _ hin
    exact ⟨hone.trans hrest, hall⟩

theorem emits_restoreFile (lib : DnsLib) (disk : Disk) (reason : String)
    (clock : Clock) (name : String) (s : Dns) {out : List DnsRecord}
    (hout : ∀ r ∈ out, .record r ∈ s.calls) :
    Emits s out (restoreFile lib disk reason clock name s out).1
        (restoreFile lib disk reason clock name s out).2.1 ∧
      ∀ r ∈ (restoreFile lib disk reason clock name s out).2.1,
        .record r ∈ (restoreFile lib disk reason clock name s out).1.calls := by
  unfold restoreFile
  split
  · exact ⟨(quiet_access s).emits out, hout⟩
  · exact ⟨(quiet_access s).emits out, hout⟩
  · obtain ⟨hflush, hin⟩ := emits_flush reason clock s.pending s.access hout
    have hback := quiet_restoreQuery lib disk
      (flush reason clock s.pending s.access out).1 clock
    rename_i value _ _
    refine ⟨(((quiet_access s).emits out).trans hflush).trans
      ((hback value.key).emits _), fun r hr => ?_⟩
    exact ((hback value.key).emits []).calls (hin r hr)

theorem emits_restoreFiles (reason : String) (clock : Clock)
    (names : List String) (s : Dns) {out : List DnsRecord}
    (hout : ∀ r ∈ out, .record r ∈ s.calls) :
    Emits s out (restoreFiles lib disk reason clock names s out).1
      (restoreFiles lib disk reason clock names s out).2 := by
  induction names generalizing s out with
  | nil => exact (Quiet.refl s).emits out
  | cons name rest ih =>
    unfold restoreFiles
    split
    · exact ((quiet_access s).emits out).trans (ih s.access hout)
    · obtain ⟨hone, hin⟩ := emits_restoreFile lib disk reason clock name
        s.access hout
      have hhere := ((quiet_access s).emits out).trans hone
      split
      case h_1 u out' e heq =>
        rw [heq] at hhere
        exact hhere.trans ((quiet_call u (by simp)).emits out')
      case h_2 u out' heq =>
        rw [heq] at hhere hin
        exact hhere.trans (ih u hin)

theorem emits_popExpired (closing : Option String) (clock : Clock)
    (ts : List Transaction) (s : Dns) (out : List DnsRecord) :
    Emits s out (popExpired closing clock ts s out).1
      (popExpired closing clock ts s out).2 := by
  induction ts generalizing s out with
  | nil => exact (Quiet.refl s).emits out
  | cons t rest ih =>
    unfold popExpired
    split
    · have hone := ((quiet_ended s t rest).emits out).trans
        (emits_report _ t.key (t.record clock
          (if closing.isSome then "Incomplete" else "Timeout")
          (some (closing.getD "DNS response timeout")) true) none out)
      exact hone.trans (ih _ _)
    · exact (Quiet.refl s).emits out

theorem emits_restoreSpilled (lib : DnsLib) (disk : Disk) (s : Dns)
    (clock : Clock) (reason : String) :
    Emits s [] (s.restoreSpilled lib disk clock reason).1
      (s.restoreSpilled lib disk clock reason).2 := by
  unfold restoreSpilled
  split
  · split
    · exact (quiet_access s).emits []
    · exact ((quiet_access s).emits []).trans
        (emits_restoreFiles reason clock _ s.access (by simp))
  · exact (Quiet.refl s).emits []

theorem emits_expire (lib : DnsLib) (disk : Disk) (s : Dns) (clock : Clock)
    (closing : Option String) :
    Emits s [] (s.expire lib disk clock closing).1
      (s.expire lib disk clock closing).2 := by
  unfold expire
  split
  · exact (Quiet.refl s).emits []
  · cases closing with
    | none => exact emits_popExpired none clock _ _ _
    | some reason =>
      exact (emits_restoreSpilled lib disk s clock reason).trans
        (emits_popExpired (some reason) clock _ _ _)

theorem emits_feedKnown {cache : Option CacheHandle} {clock : Clock}
    {side : Direction} {bytes : Bytes} {p : Packet}
    {result : Dns × List DnsRecord}
    (h : s.feedKnown cache clock side bytes p = some result) :
    Emits s [] result.1 result.2 := by
  unfold feedKnown at h
  split at h
  · split at h
    · cases h
      exact (((quiet_duplicate s cache side bytes).trans
        (quiet_hold _ _ _)).emits []).trans (emits_report _ _ _ none [])
    · simp at h
  · split at h
    · split at h
      case h_1 t hfind =>
        cases h
        suffices hquiet : Quiet s (Dns.finish _
            { t with bytes := t.bytes.set .server bytes.length }) from by
          have hreport := (hquiet.emits []).trans (emits_report _ t.key
            ({ t with bytes := t.bytes.set .server bytes.length }.record clock
              p.status none true) (some p) [])
          exact ⟨hreport.made, hreport.kept, hreport.calls, hreport.seen⟩
        refine Quiet.trans ?_ (quiet_finish _ _)
        split
        · exact (quiet_hold _ _ _).trans (quiet_call _ (by simp))
        · exact quiet_hold _ _ _
      case h_2 =>
        split at h
        · cases h
          exact (quiet_duplicate s cache side bytes).emits []
        · simp at h
    · simp at h

theorem emits_makeRoom (lib : DnsLib) (disk : Disk) (s : Dns)
    (cache : Option CacheHandle) (clock : Clock) :
    Emits s [] (s.makeRoom lib disk cache clock).1
      (s.makeRoom lib disk cache clock).2 := by
  unfold makeRoom
  split
  · split
    · have hspill := quiet_spillOldest lib disk s
      split
      case h_1 u e heq =>
        rw [heq] at hspill
        exact (hspill.trans (quiet_failRecording u cache e)).emits []
      case h_2 u heq =>
        rw [heq] at hspill
        exact hspill.emits []
    · split
      · exact ((quiet_ended s _ _).emits []).trans (emits_report _ _ _ none [])
      · exact (Quiet.refl s).emits []
  · exact (Quiet.refl s).emits []

theorem emits_feedNew (lib : DnsLib) (disk : Disk) (s : Dns)
    (cache : Option CacheHandle) (clock : Clock) (side : Direction)
    (bytes : Bytes) (packet : Except String Packet) :
    Emits s [] (s.feedNew lib disk cache clock side bytes packet).1
      (s.feedNew lib disk cache clock side bytes packet).2 := by
  have hcreate := quiet_create s cache clock side bytes packet
  unfold feedNew
  generalize s.create cache clock side bytes packet = made at hcreate
  obtain ⟨u, t⟩ := made
  have hother : ∀ r : DnsRecord,
      Emits s [] ((u.finish t).report t.key r none) [r] := fun r =>
    ((hcreate.trans (quiet_finish u t)).emits []).trans
      (emits_report _ t.key r none [])
  cases packet with
  | error e => exact hother _
  | ok p =>
    dsimp only
    split
    · have hrecent : Quiet u { u with
          recent := u.recent.filter fun key => key != t.key } :=
        ⟨rfl, ⟨[], by simp⟩, List.Subset.refl _⟩
      have hroom := ((hcreate.trans hrecent).emits []).trans
        (emits_makeRoom lib disk _ cache clock)
      exact (hroom.trans ((quiet_hold _ _ _).emits _)).trans
        (emits_report _ t.key _ none _)
    · exact hother _

theorem emits_feedPacket (lib : DnsLib) (disk : Disk) (s : Dns)
    (cache : Option CacheHandle) (clock : Clock) (side : Direction)
    (bytes : Bytes) :
    Emits s [] (s.feedPacket lib disk cache clock side bytes).1
      (s.feedPacket lib disk cache clock side bytes).2 := by
  unfold feedPacket
  split
  · exact emits_feedNew lib disk s cache clock side bytes _
  · rename_i p hdecode
    have hrecall := (quiet_recall lib disk s cache clock p.key).emits []
    dsimp only
    split
    case h_1 result hknown => exact hrecall.trans (emits_feedKnown hknown)
    case h_2 hknown =>
      exact hrecall.trans (emits_feedNew lib disk _ cache clock side bytes _)

theorem emits_feed (lib : DnsLib) (disk : Disk) (s : Dns)
    (cache : Option CacheHandle) (clock : Clock) (side : Direction)
    (bytes : Bytes) :
    Emits s [] (s.feed lib disk cache clock side bytes).1
      (s.feed lib disk cache clock side bytes).2 := by
  have hexpire := ((quiet_startSpill s cache).emits []).trans
    (emits_expire lib disk (s.startSpill cache) clock none)
  exact hexpire.trans ((emits_feedPacket lib disk _ cache clock side bytes).after _)

theorem emits_tcpLoop (lib : DnsLib) (disk : Disk) (cache : Option CacheHandle)
    (clock : Clock) (side : Direction) (s : Dns) (out : List DnsRecord)
    (b : Bytes) :
    Emits s out (tcpLoop lib disk cache clock side s out b).1
      (tcpLoop lib disk cache clock side s out b).2 := by
  have hbuffers : ∀ (u : Dns) (buffers : Sides Bytes),
      Quiet u { u with buffers := buffers } := fun u buffers =>
    ⟨rfl, ⟨[], by simp⟩, List.Subset.refl _⟩
  fun_induction tcpLoop with
  | case1 s out b len hwait => exact (hbuffers _ _).emits _
  | case2 s out b len hfull message rest u more heq ih =>
    have hfeed := emits_feed lib disk
      { s with buffers := s.buffers.set side rest } cache clock side message
    rw [heq] at hfeed
    exact (((hbuffers s _).emits out).trans (hfeed.after out)).trans ih

theorem emits_feedRest (lib : DnsLib) (disk : Disk) (s : Dns)
    (cache : Option CacheHandle) (clock : Clock) (side : Direction) :
    Emits s [] (s.feedRest lib disk cache clock side).1
      (s.feedRest lib disk cache clock side).2 := by
  have hbuffers : Quiet s { s with buffers := s.buffers.set side [] } :=
    ⟨rfl, ⟨[], by simp⟩, List.Subset.refl _⟩
  unfold feedRest
  dsimp only
  split
  · exact (Quiet.refl s).emits []
  · exact (hbuffers.emits []).trans (emits_feed lib disk _ cache clock side _)

theorem emits_close (lib : DnsLib) (disk : Disk) (s : Dns)
    (cache : Option CacheHandle) (clock : Clock) (reason : String) :
    Emits s [] (s.close lib disk cache clock reason).1
      (s.close lib disk cache clock reason).2 := by
  have hclient := emits_feedRest lib disk s cache clock .client
  have hserver := (emits_feedRest lib disk
    (s.feedRest lib disk cache clock .client).1 cache clock .server).after
    (s.feedRest lib disk cache clock .client).2
  exact (hclient.trans hserver).trans ((emits_expire lib disk _ clock _).after _)

private theorem emits_step (lib : DnsLib) (disk : Disk) (s : Dns) (e : Event) :
    Emits s [] (s.step lib disk e).1 (s.step lib disk e).2 := by
  cases e with
  | feed cache clock side bytes =>
    exact emits_feed lib disk s cache clock side bytes
  | tcp cache clock side bytes =>
    exact emits_tcpLoop lib disk cache clock side s [] _
  | expire clock closing => exact emits_expire lib disk s clock closing
  | close cache clock reason => exact emits_close lib disk s cache clock reason

theorem emits_run (lib : DnsLib) (disk : Disk) (s : Dns) (es : List Event) :
    Emits s [] (run lib disk s es).1 (run lib disk s es).2 := by
  induction es generalizing s with
  | nil => exact (Quiet.refl s).emits []
  | cons e es ih =>
    exact (emits_step lib disk s e).trans ((ih (s.step lib disk e).1).after _)

end Dns

end ProxyLane.Mitm
