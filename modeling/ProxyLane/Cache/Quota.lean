import ProxyLane.Cache.PayloadCache

/-!
# The quotas of the cache

Whatever the file system answers, the bytes in use are those of the records,
no quota is exceeded and no subtraction goes below zero.
-/

namespace ProxyLane.Cache

open ProxyLane.Foundation ProxyLane.Protocol

/-! ## The invariant -/

structure Accounted (config : CacheConfig) (w : Worker) : Prop where
  used : w.stats.usedBytes = w.records.total Record.sum
  total : w.stats.usedBytes ≤ config.totalBytes
  entry : ∀ id r, w.records.get? id = some r → r.sum ≤ config.entryBytes
  count : w.records.size ≤ config.maxEntries

def Job.Fits (config : CacheConfig) (records : Table Record) : Job → Prop
  | .register id => id ∉ records.keys
  | .append id _ _ wanted => ∀ r, records.get? id = some r →
      r.sum + wanted ≤ config.entryBytes

def Task.Fits (config : CacheConfig) (records : Table Record) : Task → Prop
  | .idle | .received _ | .settle _ => True
  | .room id side bytes wanted =>
    (Job.append id side bytes wanted).Fits config records
  | .scan job _ _ _ | .evict job _ _ => job.Fits config records
  | .commit (.register id) =>
    id ∉ records.keys ∧ records.size < config.maxEntries
  | .commit job => job.Fits config records

structure QuotaInv (config : CacheConfig) (s : State) : Prop where
  accounted : ∀ w, s.worker = some w → Accounted config w
  fits : ∀ w, s.worker = some w → w.task.Fits config w.records
  panic : s.panicked ≠ some .underflow

theorem Record.sum_eq (r : Record) (side : Direction) :
    r.sum = r.stored.get side + r.stored.get side.other := by
  cases side
  · rfl
  · exact Nat.add_comm _ _

theorem Record.sum_set (r : Record) (side : Direction) (n : Nat) (files stopped) :
    (Record.mk files (r.stored.set side n) stopped).sum + r.stored.get side =
      r.sum + n := by
  cases side <;> simp only [Record.sum, Sides.set, Sides.get] <;> omega

/-! ## Removing the files of an entry -/

def Removed (before after : Sides (Option Bytes)) : Prop :=
  ∀ side, after.get side = before.get side ∨ after.get side = none

theorem removed_refl (files : Sides (Option Bytes)) : Removed files files :=
  fun _ => Or.inl rfl

theorem removed_set (files : Sides (Option Bytes)) (side : Direction) :
    Removed files (files.set side none) := by
  intro s
  rw [Sides.get_set]
  split
  · exact Or.inr rfl
  · exact Or.inl rfl

theorem Removed.trans {a b c : Sides (Option Bytes)} (hab : Removed a b)
    (hbc : Removed b c) : Removed a c := by
  intro side
  rcases hbc side with h | h
  · rw [h]
    exact hab side
  · exact Or.inr h

theorem Record.removeFile_cases {r : Record} {side : Direction} {used : Nat}
    (ok : Bool) (disk : Sides (Option Bytes)) (h : r.stored.get side ≤ used) :
    (∃ r' disk', r.removeFile side ok used disk =
        .done r' (used - r.stored.get side) disk' ∧
      r'.stored = r.stored.set side 0 ∧ r'.stopped = r.stopped ∧
      r'.files = r.files.set side false ∧ Removed disk disk') ∨
    (ok = false ∧ (r.files.get side = true ∨ r.stored.get side ≠ 0) ∧
      ∃ r', r.removeFile side ok used disk = .failed r' ∧
        r'.stored = r.stored ∧ r'.stopped = r.stopped) := by
  unfold Record.removeFile
  split
  case isTrue hopen =>
    cases ok with
    | true =>
      refine Or.inl ⟨{ r with
        files := r.files.set side false
        stored := r.stored.set side 0 }, disk.set side none, ?_, rfl, rfl,
        rfl, removed_set disk side⟩
      rw [if_pos rfl]
    | false =>
      refine Or.inr ⟨rfl, ?_, { r with files := r.files.set side false },
        by simp, rfl, rfl⟩
      simpa using hopen
  case isFalse hclosed =>
    have hzero : r.stored.get side = 0 := by
      simp only [Bool.or_eq_true, bne_iff_ne, not_or, not_not] at hclosed
      exact hclosed.2
    refine Or.inl ⟨{ r with files := r.files.set side false }, disk, ?_, ?_,
      rfl, rfl, removed_refl disk⟩
    · rw [hzero]
      rfl
    · change r.stored = r.stored.set side 0
      rw [← hzero, Sides.set_get]

def Ticket.markEvicted (t : Ticket) : Ticket :=
  let t := t.stop "payload evicted"
  { t with state := { t.state with evicted := true } }

theorem State.evict_cases {config : CacheConfig} {s : State} {w : Worker}
    {id : Nat} {r : Record} (io : Io) (hget : w.records.get? id = some r)
    (hused : r.sum ≤ w.stats.usedBytes) :
    let marked := s.modifyTicket id Ticket.markEvicted
    let reason := "payload eviction failed: " ++ io.error
    (∃ files, Removed (s.disk id) files ∧
      s.evict config w id io = .ok
        ((marked.modifyTicket id fun t => { t with
          state := { (marked.tickets id).snapshot with
            bytes := ⟨0, 0⟩ } }).setDisk id files)
        ((w.setUsed (w.stats.usedBytes - r.sum)).retire config id
          { (marked.tickets id).snapshot with bytes := ⟨0, 0⟩ })) ∨
    (∃ r', r'.stored = r.stored ∧ r'.stopped = r.stopped ∧
      s.evict config w id io =
        .failed marked (w.modifyRecord id fun _ => r') reason) ∨
    (∃ r' files, r'.stored = ⟨0, r.stored.server⟩ ∧ r'.stopped = r.stopped ∧
      Removed (s.disk id) files ∧ io.remove.server = false ∧
      (r.files.server = true ∨ r.stored.server ≠ 0) ∧
      (r.stored.client ≠ 0 → io.remove.client = true) ∧
      s.evict config w id io = .failed (marked.setDisk id files)
        ((w.modifyRecord id fun _ => r').setUsed
          (w.stats.usedBytes - r.stored.client)) reason) := by
  intro marked reason
  have hmarked : (s.modifyTicket id fun t =>
      let t := t.stop "payload evicted"
      { t with state := { t.state with evicted := true } }) = marked := rfl
  have hclient : r.stored.get .client ≤ w.stats.usedBytes := by
    have := r.sum_eq .client
    omega
  unfold State.evict
  simp only [hget, hmarked]
  rcases Record.removeFile_cases io.remove.client (marked.disk id) hclient with
    ⟨r₁, files₁, h₁, hstored₁, hstopped₁, hfiles₁, hrem₁⟩ |
      ⟨hok, -, r₁, h₁, hstored₁, hstopped₁⟩
  · have hserver : r₁.stored.get .server ≤
        w.stats.usedBytes - r.stored.get .client := by
      rw [hstored₁, Sides.get_set, if_neg (by decide)]
      have := r.sum_eq .client
      simp only [Direction.other] at this
      omega
    have hstored : r₁.stored.get .server = r.stored.server := by
      rw [hstored₁]
      rfl
    have hfiles : r₁.files.get .server = r.files.server := by
      rw [hfiles₁]
      rfl
    have hcharge : r.stored.client ≠ 0 → io.remove.client = true := by
      intro hne
      by_contra hfalse
      rw [Bool.not_eq_true] at hfalse
      have hopen : (r.files.get .client || r.stored.get .client != 0) = true := by
        simp only [Bool.or_eq_true, bne_iff_ne]
        exact Or.inr hne
      rw [hfalse] at h₁
      simp [Record.removeFile, hopen] at h₁
    rcases Record.removeFile_cases io.remove.server files₁ hserver with
      ⟨r₂, files₂, h₂, -, -, -, hrem₂⟩ | ⟨hok₂, hopen₂, r₂, h₂, hstored₂, hstopped₂⟩
    · refine Or.inl ⟨files₂, hrem₁.trans hrem₂, ?_⟩
      have hsum : w.stats.usedBytes - r.stored.get .client -
          r₁.stored.get .server = w.stats.usedBytes - r.sum := by
        rw [hstored]
        simp only [Record.sum, Sides.get]
        omega
      simp only [h₁, h₂, hsum]
    · refine Or.inr (Or.inr ⟨r₂, files₁, ?_, hstopped₂.trans hstopped₁, hrem₁,
        hok₂, ?_, hcharge, ?_⟩)
      · rw [hstored₂, hstored₁]
        rfl
      · rwa [hfiles, hstored] at hopen₂
      · simp only [h₁, h₂]
        rfl
  · refine Or.inr (Or.inl ⟨r₁, hstored₁, hstopped₁, ?_⟩)
    simp only [h₁]
    rfl

/-! ## Steps of the worker -/

section Steps

variable {config : CacheConfig} {s : State} {w : Worker}

theorem Accounted.task (h : Accounted config w) (task : Task) :
    Accounted config { w with task } :=
  ⟨h.used, h.total, h.entry, h.count⟩

theorem QuotaInv.setWorker (hp : s.panicked ≠ some .underflow)
    (ha : Accounted config w) (hf : w.task.Fits config w.records) :
    QuotaInv config (s.setWorker w) where
  accounted w' h := by
    cases h
    exact ha
  fits w' h := by
    cases h
    exact hf
  panic := hp

theorem QuotaInv.missing (s : State) : QuotaInv config (s.panic .missing) where
  accounted w h := by cases h
  fits w h := by cases h
  panic := by simp [State.panic]

theorem startScan_quota (hp : s.panicked ≠ some .underflow)
    (ha : Accounted config w) {job : Job} (hf : job.Fits config w.records) :
    QuotaInv config (s.startScan w job) :=
  .setWorker hp (ha.task _) hf

theorem register_quota (hp : s.panicked ≠ some .underflow)
    (ha : Accounted config w) (id : Nat) :
    QuotaInv config (s.register config w id) := by
  unfold State.register
  split
  · exact .setWorker hp (ha.task _) trivial
  · have hnew : id ∉ w.records.keys := by
      rwa [Table.contains_iff] at *
    split
    · exact startScan_quota hp ha hnew
    · exact .setWorker hp (ha.task _) ⟨hnew, Nat.not_le.1 ‹_›⟩

theorem settle_quota (hp : s.panicked ≠ some .underflow)
    (ha : Accounted config w) (id : Nat) :
    QuotaInv config (s.settle w id) :=
  .setWorker hp (ha.task _) trivial

theorem beginAppend_quota (hp : s.panicked ≠ some .underflow)
    (ha : Accounted config w) (id : Nat) (side : Direction) (bytes : Bytes) :
    QuotaInv config (s.beginAppend config w id side bytes) := by
  unfold State.beginAppend
  split
  · exact settle_quota (s := s.lose _ _ _) hp ha id
  case h_2 r hget =>
    split
    · exact settle_quota (s := s.lose _ _ _) hp ha id
    · refine .setWorker hp (ha.task _) fun r' hr' => ?_
      obtain rfl : r' = r := Option.some.inj (hr'.symm.trans hget)
      have := ha.entry id r' hget
      omega

theorem makeRoom_quota (hp : s.panicked ≠ some .underflow)
    (ha : Accounted config w) {id : Nat} {side : Direction} {bytes : Bytes}
    {wanted : Nat}
    (hf : (Job.append id side bytes wanted).Fits config w.records) :
    QuotaInv config (s.makeRoom config w id side bytes wanted) := by
  unfold State.makeRoom
  rw [if_neg (Nat.not_lt.2 ha.total)]
  split
  · exact startScan_quota hp ha hf
  · exact .setWorker hp (ha.task _) hf

theorem scan_quota (hp : s.panicked ≠ some .underflow)
    (ha : Accounted config w) {job : Job} (hf : job.Fits config w.records)
    (todo : List Nat) (best : Option (Nat × Nat)) (ready : List Nat) :
    QuotaInv config (s.scan w job todo best ready) := by
  unfold State.scan
  split
  · exact .setWorker hp (ha.task _) hf
  · split
    · exact .setWorker hp (ha.task _) hf
    · exact .setWorker hp (ha.task _) hf
    · exact .setWorker hp (ha.task _) trivial

theorem stopRecord_quota (ha : Accounted config w) (id : Nat)
    (reason : String) : Accounted config (s.stopRecord w id reason).2 := by
  unfold State.stopRecord
  split
  case isFalse => exact ha
  case isTrue hcontains =>
    obtain ⟨r, hr⟩ := Option.isSome_iff_exists.1 hcontains
    have htotal := Table.total_modify Record.sum
      (fun r => { r with stopped := true }) hr
    refine ⟨?_, ha.total, fun j r' hr' => ?_, ?_⟩
    · rw [show (w.modifyRecord id fun r => { r with stopped := true }).stats =
        w.stats from rfl, ha.used]
      exact (Nat.add_right_cancel htotal).symm
    · rw [Worker.modifyRecord, Table.get?_modify] at hr'
      split at hr'
      · obtain ⟨r'', hget, rfl⟩ := Option.map_eq_some_iff.1 hr'
        exact ha.entry j r'' hget
      · exact ha.entry j r' hr'
    · simpa [Worker.modifyRecord] using ha.count

private theorem stopRecord_panicked (s : State) (w : Worker) (id : Nat)
    (reason : String) : (s.stopRecord w id reason).1.panicked = s.panicked := by
  unfold State.stopRecord
  split <;> rfl

theorem abort_quota (hp : s.panicked ≠ some .underflow)
    (ha : Accounted config w) (id : Nat) (reason : String) :
    QuotaInv config (s.abort w id reason) := by
  refine settle_quota ?_ (stopRecord_quota ha id reason) id
  rwa [stopRecord_panicked]

theorem endAppend_quota (hp : s.panicked ≠ some .underflow)
    (ha : Accounted config w) (id : Nat) (side : Direction) (bytes : Bytes)
    (wanted keep : Nat) :
    QuotaInv config (s.endAppend w id side bytes wanted keep) := by
  unfold State.endAppend
  split
  · exact abort_quota (s := s.lose _ _ _) hp ha id _
  · exact settle_quota hp ha id

theorem write_cases (file : Bytes) (stored used : Nat) (bytes : Bytes)
    (keep : Nat) (io : Io) :
    ∃ written actual, State.write file stored used bytes keep io =
        some ⟨file ++ bytes.take written, actual, used + actual - stored⟩ ∧
      written ≤ keep ∧ stored ≤ actual ∧ actual ≤ stored + keep ∧
      (io.failedAfter = none → written = keep) ∧
      (io.failedAfter = none → actual = stored + keep) := by
  have hclamp : ∀ written actual, stored ≤ actual → actual ≤ stored + keep →
      (if stored + keep - actual ≤ used + keep then
        some (State.Written.mk (file ++ bytes.take written) actual
          (used + keep - (stored + keep - actual)))
      else none) =
        some ⟨file ++ bytes.take written, actual, used + actual - stored⟩ := by
    intro written actual hlow hhigh
    rw [if_pos (by omega)]
    congr 2
    omega
  unfold State.write
  dsimp only
  cases hio : io.failedAfter with
  | none =>
    refine ⟨keep, stored + keep, ?_, Nat.le_refl _, Nat.le_add_right _ _,
      Nat.le_refl _, fun _ => rfl, fun _ => rfl⟩
    simp only [Option.isSome_none, Bool.false_and, Bool.false_eq_true,
      if_false, Nat.min_self, Nat.le_add_right, Nat.max_eq_right]
    exact hclamp _ _ (by omega) (by omega)
  | some n =>
    refine ⟨min n (keep - 1), _, hclamp _ _ ?_ ?_, ?_, ?_, ?_,
      fun h => by simp at h, fun h => by simp at h⟩ <;> omega

theorem Accounted.grow (ha : Accounted config w) {id : Nat} {r : Record}
    (f : Record → Record) (stats : CacheStats)
    (hget : w.records.get? id = some r) (hsum : r.sum ≤ (f r).sum)
    (hused : stats.usedBytes = w.stats.usedBytes + ((f r).sum - r.sum))
    (htotal : stats.usedBytes ≤ config.totalBytes)
    (hentry : (f r).sum ≤ config.entryBytes) :
    Accounted config { w with records := w.records.modify id f, stats } := by
  have hmod := Table.total_modify Record.sum f hget
  refine ⟨?_, htotal, fun j r' hr' => ?_, ?_⟩
  · change stats.usedBytes = (w.records.modify id f).total Record.sum
    have := ha.used
    omega
  · rw [Table.get?_modify] at hr'
    split at hr'
    case isTrue hj =>
      rw [hj, hget] at hr'
      cases hr'
      exact hentry
    case isFalse => exact ha.entry j r' hr'
  · rw [Table.size_modify]
    exact ha.count

theorem store_quota (hp : s.panicked ≠ some .underflow)
    (ha : Accounted config w) {id : Nat} {side : Direction} {bytes : Bytes}
    {wanted : Nat}
    (hf : (Job.append id side bytes wanted).Fits config w.records) (io : Io) :
    QuotaInv config (s.store config w id side bytes wanted io) := by
  unfold State.store
  rw [if_neg (Nat.not_lt.2 ha.total)]
  dsimp only
  split
  · exact endAppend_quota hp ha id side bytes wanted _
  · split
    · exact .missing s
    case h_2 r hget =>
      split
      · exact abort_quota (s := s.lose _ _ _) hp ha id _
      · obtain ⟨written, actual, hwrite, -, hlow, hhigh, -, -⟩ :=
          write_cases (((s.disk id).get side).getD []) (r.stored.get side)
            w.stats.usedBytes bytes
            (min wanted (config.totalBytes - w.stats.usedBytes)) io
        rw [hwrite]
        dsimp only
        have hgrown : ∀ peak entries evicted, Accounted config { w with
            records := w.records.modify id fun r' =>
              { r' with
                files := r'.files.set side true
                stored := r.stored.set side actual }
            stats := ⟨w.stats.usedBytes + actual - r.stored.get side, peak,
              entries, evicted⟩ } := by
          intro peak entries evicted
          have hset := r.sum_set side actual (r.files.set side true) r.stopped
          have hfits := hf r hget
          have htotal := ha.total
          refine ha.grow _ _ hget ?_ ?_ ?_ ?_
          · omega
          · change w.stats.usedBytes + actual - r.stored.get side = _
            omega
          · change w.stats.usedBytes + actual - r.stored.get side ≤ _
            omega
          · omega
        split
        · exact abort_quota (s := (s.modifyTicket id _).setDisk id _ |>.lose
            id side _) hp (hgrown _ _ _) id _
        · exact endAppend_quota (s := (s.modifyTicket id _).setDisk id _) hp
            (hgrown _ _ _) id side bytes wanted _


theorem Accounted.shrink (ha : Accounted config w) {id : Nat} {r r' : Record}
    (stats : CacheStats) (hget : w.records.get? id = some r)
    (hsum : r'.sum ≤ r.sum)
    (hused : stats.usedBytes + r.sum = w.stats.usedBytes + r'.sum) :
    Accounted config { w with
      records := w.records.modify id fun _ => r', stats } := by
  have hmod := Table.total_modify Record.sum (fun _ => r') hget
  have hold := ha.used
  have htotal := ha.total
  refine ⟨?_, ?_, fun j r'' hr'' => ?_, ?_⟩
  · change stats.usedBytes =
      (w.records.modify id fun _ => r').total Record.sum
    omega
  · change stats.usedBytes ≤ config.totalBytes
    omega
  · rw [Table.get?_modify] at hr''
    split at hr''
    · obtain ⟨_, _, rfl⟩ := Option.map_eq_some_iff.1 hr''
      exact Nat.le_trans hsum (ha.entry id r hget)
    · exact ha.entry j r'' hr''
  · rw [Table.size_modify]
    exact ha.count

theorem Accounted.retire (ha : Accounted config w) {id : Nat} {r : Record}
    (snapshot : CacheSnapshot) (hget : w.records.get? id = some r) :
    Accounted config ((w.setUsed (w.stats.usedBytes - r.sum)).retire config id
      snapshot) := by
  have htotal := Table.total_erase Record.sum hget
  have hold := ha.used
  refine ⟨?_, ?_, fun j r' hr' => ?_, ?_⟩
  · change w.stats.usedBytes - r.sum = (w.records.erase id).total Record.sum
    omega
  · change w.stats.usedBytes - r.sum ≤ config.totalBytes
    have := ha.total
    omega
  · change (w.records.erase id).get? j = some r' at hr'
    rw [Table.get?_erase] at hr'
    split at hr'
    · cases hr'
    · exact ha.entry j r' hr'
  · have hsize := Table.size_erase (Table.mem_keys_of_get? hget)
    have := ha.count
    change (w.records.erase id).size ≤ config.maxEntries
    omega

theorem Job.Fits.mono {job : Job} {records records' : Table Record}
    (hf : job.Fits config records)
    (h : ∀ id r', records'.get? id = some r' →
      ∃ r, records.get? id = some r ∧ r'.sum ≤ r.sum) :
    job.Fits config records' := by
  cases job with
  | register id =>
    intro hmem
    rw [← Table.contains_iff, Table.contains, Option.isSome_iff_exists] at hmem
    obtain ⟨r', hr'⟩ := hmem
    obtain ⟨r, hr, -⟩ := h id r' hr'
    exact hf (Table.mem_keys_of_get? hr)
  | append id side bytes wanted =>
    intro r' hr'
    obtain ⟨r, hr, hsum⟩ := h id r' hr'
    have := hf r hr
    omega

theorem giveUp_quota (hp : s.panicked ≠ some .underflow)
    (ha : Accounted config w) (job : Job) (reason : String) :
    QuotaInv config (s.giveUp w job reason) := by
  cases job with
  | register id => exact .setWorker hp (ha.task _) trivial
  | append id side bytes wanted =>
    exact abort_quota (s := s.lose id side _) hp ha id reason

theorem evictFor_quota (hp : s.panicked ≠ some .underflow)
    (ha : Accounted config w) {job : Job} (hf : job.Fits config w.records)
    (victim : Nat) (io : Io) :
    QuotaInv config (s.evictFor config w job victim io) := by
  cases hget : w.records.get? victim with
  | none =>
    have hevict : s.evict config w victim io = .panicked .missing := by
      simp [State.evict, hget]
    simp only [State.evictFor, hevict]
    exact .missing s
  | some r =>
    have hused : r.sum ≤ w.stats.usedBytes :=
      ha.used ▸ Table.measure_le_total Record.sum hget
    rcases @State.evict_cases config s _ _ _ io hget hused with
      ⟨files, -, hevict⟩ | ⟨r', hstored, -, hevict⟩ |
        ⟨r', files, hstored, -, -, -, -, -, hevict⟩
    · simp only [State.evictFor, hevict]
      have hfits : job.Fits config (w.records.erase victim) := by
        refine hf.mono fun id r' hr' => ?_
        rw [Table.get?_erase] at hr'
        split at hr'
        · cases hr'
        · exact ⟨r', hr', Nat.le_refl _⟩
      refine .setWorker hp ((ha.retire _ hget).task _) ?_
      cases job with
      | register id =>
        refine ⟨hfits, ?_⟩
        have hsize := Table.size_erase (Table.mem_keys_of_get? hget)
        have := ha.count
        change (w.records.erase victim).size < config.maxEntries
        omega
      | append id side bytes wanted => exact hfits
    · simp only [State.evictFor, hevict]
      refine giveUp_quota (s := s.modifyTicket victim _) hp
        (ha.shrink w.stats hget ?_ ?_) job _ <;>
        simp only [Record.sum, hstored, Nat.le_refl]
    · simp only [State.evictFor, hevict]
      have hsum : r'.sum = r.stored.server := by
        simp [Record.sum, hstored]
      refine giveUp_quota (s := (s.modifyTicket victim _).setDisk victim _)
        hp (ha.shrink { w.stats with
          usedBytes := w.stats.usedBytes - r.stored.client } hget ?_ ?_) job _
      · rw [hsum]
        exact Nat.le_add_left _ _
      · change w.stats.usedBytes - r.stored.client + r.sum = _
        have hsplit : r.sum = r.stored.client + r.stored.server := rfl
        omega

theorem insertRecord_quota (hp : s.panicked ≠ some .underflow)
    (ha : Accounted config w) {id : Nat} (hnew : id ∉ w.records.keys)
    (hsize : w.records.size < config.maxEntries) :
    QuotaInv config (s.insertRecord w id) := by
  refine .setWorker hp ⟨?_, ha.total, fun j r hr => ?_, ?_⟩ trivial
  · change w.stats.usedBytes = (w.records.insert id Record.new).total Record.sum
    rw [Table.total_insert _ _ hnew, ha.used]
    exact (Nat.zero_add _).symm
  · change (w.records.insert id Record.new).get? j = some r at hr
    rw [Table.get?_insert] at hr
    split at hr
    · cases hr
      exact Nat.zero_le _
    · exact ha.entry j r hr
  · change (w.records.insert id Record.new).size ≤ config.maxEntries
    rw [Table.size_insert hnew]
    exact hsize

theorem afterQuery_cases (config : CacheConfig) (s : State) (w : Worker)
    (q : Query) (io : Io) :
    (∃ entries, s.afterQuery config w q io =
      { w with stats := { w.stats with entries } }) ∨
    ∃ id files, s.afterQuery config w q io =
      w.modifyRecord id fun r => { r with files } := by
  unfold State.afterQuery
  split
  · exact Or.inl ⟨_, rfl⟩
  · split
    · exact Or.inr ⟨_, _, rfl⟩
    · exact Or.inl ⟨w.stats.entries, rfl⟩
  · exact Or.inl ⟨w.stats.entries, rfl⟩

theorem afterQuery_quota (ha : Accounted config w) (q : Query) (io : Io) :
    Accounted config (s.afterQuery config w q io) := by
  rcases afterQuery_cases config s w q io with ⟨entries, h⟩ | ⟨id, files, h⟩
  · rw [h]
    exact ⟨ha.used, ha.total, ha.entry, ha.count⟩
  · rw [h, Worker.modifyRecord]
    cases hget : w.records.get? id with
    | none =>
      rw [Table.modify_of_get?_none _ hget]
      exact ha
    | some r =>
      exact ha.grow (fun r => { r with files }) w.stats hget (Nat.le_refl _)
        (by simp [Record.sum]) ha.total (ha.entry id r hget)

theorem work_quota (h : QuotaInv config s) (io : Io) :
    QuotaInv config (s.work config io) := by
  unfold State.work
  split
  · exact h
  case h_2 w hw =>
    have ha := h.accounted w hw
    have hf := h.fits w hw
    have hp := h.panic
    split
    all_goals rename_i htask
    all_goals rw [htask] at hf
    · exact h
    · exact register_quota hp ha _
    · exact beginAppend_quota hp ha _ _ _
    · exact .setWorker hp ((afterQuery_quota ha _ io).task _) trivial
    · exact makeRoom_quota hp ha hf
    · exact scan_quota hp ha hf _ _ _
    · exact evictFor_quota hp ha hf _ io
    · exact insertRecord_quota hp ha hf.1 hf.2
    · exact store_quota hp ha hf io
    · exact .setWorker hp (ha.task _) trivial

end Steps

/-! ## Steps of the producers -/

theorem State.trySend_eq {config : CacheConfig} {s s' : State} {c : Command}
    (h : s.trySend config c = .ok s') :
    s' = { s with queue := s.queue ++ [c] } := by
  unfold State.trySend at h
  repeat' split at h
  all_goals cases h
  rfl

structure SameWorker (s s' : State) : Prop where
  worker : s'.worker = s.worker
  panicked : s'.panicked = s.panicked
  disk : s'.disk = s.disk
  bytes : ∀ id, (s'.tickets id).state.bytes = (s.tickets id).state.bytes

theorem alter_bytes {tickets : Nat → Ticket} {f : Ticket → Ticket} (id : Nat)
    (hf : ∀ t, (f t).state.bytes = t.state.bytes) (j : Nat) :
    (alter tickets id f j).state.bytes = (tickets j).state.bytes := by
  unfold alter
  split
  · exact hf _
  · rfl

theorem sameWorker_modifyTicket (s : State) (id : Nat) {f : Ticket → Ticket}
    (hf : ∀ t, (f t).state.bytes = t.state.bytes) :
    SameWorker s (s.modifyTicket id f) :=
  ⟨rfl, rfl, rfl, alter_bytes id hf⟩

theorem entry_sameWorker (config : CacheConfig) (s : State) :
    SameWorker s (s.entry config) := by
  unfold State.entry
  dsimp only
  split
  case h_1 s' h =>
    rw [State.trySend_eq h]
    exact ⟨rfl, rfl, rfl, fun _ => rfl⟩
  case h_2 => exact ⟨rfl, rfl, rfl, alter_bytes _ fun _ => rfl⟩

theorem append_sameWorker (s : State) (id : Nat) (side : Direction)
    (bytes : Bytes) : SameWorker s (s.append id side bytes) := by
  unfold State.append
  dsimp only
  split
  · exact ⟨rfl, rfl, rfl, fun _ => rfl⟩
  · exact ⟨rfl, rfl, rfl, alter_bytes _ fun _ => rfl⟩

theorem poll_sameWorker (s : State) (id : Nat) (side : Direction) :
    SameWorker s (s.poll id side) := by
  unfold State.poll
  split
  · exact ⟨rfl, rfl, rfl, fun _ => rfl⟩
  · split
    · exact ⟨rfl, rfl, rfl, alter_bytes _ fun _ => rfl⟩
    · exact ⟨rfl, rfl, rfl, fun _ => rfl⟩
  · exact ⟨rfl, rfl, rfl, fun _ => rfl⟩

theorem send_sameWorker (config : CacheConfig) (s : State) (id : Nat)
    (side : Direction) : SameWorker s (s.send config id side) := by
  unfold State.send
  split
  · split
    case h_1 s' h =>
      rw [State.trySend_eq h]
      exact ⟨rfl, rfl, rfl, fun _ => rfl⟩
    case h_2 => exact ⟨rfl, rfl, rfl, alter_bytes _ fun _ => rfl⟩
  · exact ⟨rfl, rfl, rfl, fun _ => rfl⟩

theorem refuse_sameWorker (s : State) (id : Nat) (side : Direction) :
    SameWorker s (s.refuse id side) := by
  unfold State.refuse
  split
  · exact ⟨rfl, rfl, rfl, alter_bytes _ fun _ => rfl⟩
  · exact ⟨rfl, rfl, rfl, fun _ => rfl⟩

theorem finish_sameWorker (s : State) (id : Nat) (info : Sides BodyInfo) :
    SameWorker s (s.finish id info) := by
  unfold State.finish
  split
  · exact ⟨rfl, rfl, rfl, alter_bytes _ fun _ => rfl⟩
  · exact ⟨rfl, rfl, rfl, fun _ => rfl⟩

theorem order_sameWorker (s : State) (id : Nat) :
    SameWorker s (s.order id) := by
  unfold State.order
  split
  · split <;> exact ⟨rfl, rfl, rfl, fun _ => rfl⟩
  · exact ⟨rfl, rfl, rfl, fun _ => rfl⟩

theorem publish_sameWorker (s : State) (id : Nat) :
    SameWorker s (s.publish id) := by
  unfold State.publish
  split
  · exact ⟨rfl, rfl, rfl, alter_bytes _ fun _ => rfl⟩
  · exact ⟨rfl, rfl, rfl, fun _ => rfl⟩

theorem ask_sameWorker (config : CacheConfig) (s : State) (q : Query) :
    SameWorker s (s.ask config q) := by
  unfold State.ask
  split
  case h_1 s' h =>
    rw [State.trySend_eq h]
    exact ⟨rfl, rfl, rfl, fun _ => rfl⟩
  case h_2 => exact ⟨rfl, rfl, rfl, fun _ => rfl⟩

theorem step_cases (config : CacheConfig) (s : State) (e : Event) :
    SameWorker s (step config s e) ∨ e = .receive ∨ (∃ io, e = .work io) ∨
      ∃ io, e = .exit io := by
  have hsame : SameWorker s s := ⟨rfl, rfl, rfl, fun _ => rfl⟩
  cases e with
  | entry =>
    refine Or.inl ?_
    rw [step]
    split
    · exact entry_sameWorker config s
    · exact hsame
  | append id side bytes =>
    refine Or.inl ?_
    rw [step]
    split
    · exact append_sameWorker s id side bytes
    · exact hsame
  | poll id side => exact Or.inl (poll_sameWorker s id side)
  | send id side => exact Or.inl (send_sameWorker config s id side)
  | refuse id side => exact Or.inl (refuse_sameWorker s id side)
  | endEarly id =>
    refine Or.inl ?_
    rw [step]
    split
    · exact sameWorker_modifyTicket s id fun _ => rfl
    · exact hsame
  | finish id info =>
    refine Or.inl ?_
    rw [step]
    split
    · exact finish_sameWorker s id info
    · exact hsame
  | order id => exact Or.inl (order_sameWorker s id)
  | publish id => exact Or.inl (publish_sameWorker s id)
  | query q => exact Or.inl (ask_sameWorker config s q)
  | receive => exact Or.inr (Or.inl rfl)
  | work io => exact Or.inr (Or.inr (Or.inl ⟨io, rfl⟩))
  | shutdown => exact Or.inl ⟨rfl, rfl, rfl, fun _ => rfl⟩
  | drop => exact Or.inl ⟨rfl, rfl, rfl, fun _ => rfl⟩
  | exit io => exact Or.inr (Or.inr (Or.inr ⟨io, rfl⟩))

theorem step_quota {config : CacheConfig} {s : State} (h : QuotaInv config s)
    (e : Event) : QuotaInv config (step config s e) := by
  rcases step_cases config s e with hsame | rfl | ⟨io, rfl⟩ | ⟨io, rfl⟩
  · refine ⟨fun w hw => ?_, fun w hw => ?_, ?_⟩
    · exact h.accounted w (hsame.worker ▸ hw)
    · exact h.fits w (hsame.worker ▸ hw)
    · exact hsame.panicked ▸ h.panic
  · rw [step, State.receive]
    split
    case h_1 w c rest hw hq =>
      split
      · exact .setWorker (s := { s with queue := rest }) h.panic
          ((h.accounted w hw).task _) trivial
      · exact h
    case h_2 => exact h
  · exact work_quota h io
  · rw [step, State.exit]
    split
    · exact h
    · split
      · exact ⟨nofun, nofun, h.panic⟩
      · exact h

theorem newCache_eq {config : CacheConfig} {s : State}
    (h : newCache config = .ok s) : s = .initial ∧ 0 < config.maxEntries := by
  unfold newCache at h
  repeat' split at h
  all_goals cases h
  exact ⟨rfl, by omega⟩

theorem initial_quota (config : CacheConfig) :
    QuotaInv config State.initial where
  accounted w h := by
    cases h
    exact ⟨rfl, Nat.zero_le _, nofun, Nat.zero_le _⟩
  fits w h := by
    cases h
    trivial
  panic := nofun

end ProxyLane.Cache
