import ProxyLane.Protocol.Http2

/-!
# The HPACK tables follow the wire

What the decoder of a direction has gone through is determined by the frames
of the two directions alone: the header blocks of its own side, in order, and
the table sizes its peer announced, taken up at the acknowledgements.  No
state of a stream enters.
-/

namespace ProxyLane.Protocol

open ProxyLane.Foundation

/-! ## Reading the header blocks off the wire -/

inductive HpackOp where
  | block (bytes : Bytes)
  | resize (size : Nat)
  deriving DecidableEq, Repr

structure WireView where
  openBlock : Option Bytes
  acks : Nat
  ops : List HpackOp
  deriving DecidableEq, Repr

def WireView.addFragment (view : WireView) (flags : UInt8) (bytes : Bytes) :
    WireView :=
  if flags &&& 4 ≠ 0 then
    { view with openBlock := none, ops := view.ops ++ [.block bytes] }
  else { view with openBlock := some bytes }

def resizeOps : Option Nat → List HpackOp
  | some size => [.resize size]
  | none => []

/-- The `k`-th acknowledgement puts the `k`-th announced size in force. -/
def wireStep (sizes : List (Option Nat)) (view : WireView) (f : Frame) :
    WireView :=
  if f.kind = 1 then
    view.addFragment f.flags ((headersFragment f.payload f.flags).toOption.getD [])
  else if f.kind = 9 then
    view.addFragment f.flags (view.openBlock.getD [] ++ f.payload)
  else if f.kind = 4 ∧ f.flags &&& 1 ≠ 0 then
    { view with
      acks := view.acks + 1
      ops := view.ops ++ resizeOps (sizes[view.acks]?.getD none) }
  else view

def wireView (sizes : List (Option Nat)) (frames : List Frame) : WireView :=
  frames.foldl (wireStep sizes) ⟨none, 0, []⟩

def announcedSize : Bytes → Option Nat → Option Nat
  | a :: b :: c :: d :: e :: f :: rest, size =>
    announcedSize rest (if a = 0 ∧ b = 1 then some (beNat [c, d, e, f]) else size)
  | _, size => size

def announced (frames : List Frame) : List (Option Nat) :=
  (frames.filter fun f => f.kind = 4 ∧ f.flags &&& 1 = 0).map fun f =>
    announcedSize f.payload none

section Decoder

variable {δ ι : Type} (lib : Library δ ι)

def decodeBlock : Nat → δ → Bytes → δ
  | _, decoder, [] => decoder
  | 0, decoder, _ => decoder
  | fuel + 1, decoder, bytes =>
    match lib.decodeExact decoder bytes with
    | .error _ => decoder
    | .ok (decoder, rest, _) => decodeBlock fuel decoder rest

def applyOp (decoder : δ) : HpackOp → δ
  | .block bytes => decodeBlock lib bytes.length decoder bytes
  | .resize size => lib.setMaxDynamicSize decoder size

def hpackFold (sizes : List (Option Nat)) (frames : List Frame) : δ :=
  (wireView sizes frames).ops.foldl (applyOp lib) lib.hpackInit

end Decoder

theorem wireView_snoc (sizes : List (Option Nat)) (frames : List Frame)
    (f : Frame) :
    wireView sizes (frames ++ [f]) = wireStep sizes (wireView sizes frames) f := by
  simp [wireView]

theorem announced_snoc (frames : List Frame) (f : Frame) :
    announced (frames ++ [f]) = announced frames ++
      if f.kind = 4 ∧ f.flags &&& 1 = 0 then [announcedSize f.payload none]
      else [] := by
  unfold announced
  rw [List.filter_append, List.map_append]
  congr 1
  split <;> simp_all

theorem addFragment_acks (view : WireView) (flags : UInt8) (bytes : Bytes) :
    (view.addFragment flags bytes).acks = view.acks := by
  unfold WireView.addFragment
  split <;> rfl

theorem acks_le_wireStep (sizes : List (Option Nat)) (view : WireView)
    (f : Frame) : view.acks ≤ (wireStep sizes view f).acks := by
  unfold wireStep
  split
  · rw [addFragment_acks]
  · split
    · rw [addFragment_acks]
    · split
      · exact Nat.le_succ _
      · exact Nat.le_refl _

theorem wireView_append_sizes {sizes : List (Option Nat)}
    {frames : List Frame} (more : List (Option Nat))
    (h : (wireView sizes frames).acks ≤ sizes.length) :
    wireView (sizes ++ more) frames = wireView sizes frames := by
  induction frames using List.reverseRecOn with
  | nil => rfl
  | append_singleton frames f ih =>
    rw [wireView_snoc] at h ⊢
    rw [wireView_snoc]
    have hle := acks_le_wireStep sizes (wireView sizes frames) f
    rw [ih (hle.trans h)]
    unfold wireStep at h ⊢
    split
    · rfl
    · split
      · rfl
      · split
        case isTrue hack =>
          rw [if_neg ‹_›, if_neg ‹_›, if_pos hack] at h
          dsimp only at h
          rw [List.getElem?_append_left (by omega)]
        case isFalse => rfl

/-! ## What a frame does to the two sides -/

section Frames

variable {δ ι : Type} (lib : Library δ ι) (limits : Limits)

open Http2

/-- The part of the state that belongs to a direction, after one frame. -/
def sidesAfter (sides : Sides (Http2Side δ)) (side : Direction) (f : Frame) :
    Sides (Http2Side δ) :=
  let fragment := fun bytes : Bytes =>
    if f.flags &&& 4 ≠ 0 then
      sides.modify side fun s =>
        { s with
          block := none
          decoder := decodeBlock lib bytes.length s.decoder bytes }
    else
      sides.modify side fun s =>
        let endStream :=
          if f.kind = 1 then decide (f.flags &&& 1 ≠ 0)
          else (s.block.map Block.endStream).getD false
        { s with block := some ⟨f.stream, endStream, bytes⟩ }
  if f.kind = 1 then
    fragment ((headersFragment f.payload f.flags).toOption.getD [])
  else if f.kind = 9 then
    fragment ((((sides.get side).block.map Block.bytes).getD []) ++ f.payload)
  else if f.kind = 4 then
    if f.flags &&& 1 ≠ 0 then
      sides.modify side fun s =>
        { s with
          settings := s.settings.tail
          decoder := (resizeOps (s.settings.head?.getD none)).foldl
            (applyOp lib) s.decoder }
    else
      sides.modify side.other fun s =>
        { s with settings := s.settings ++ [announcedSize f.payload none] }
  else sides

theorem decodeFields_decoder {fuel : Nat} {decoder : δ} {bytes : Bytes}
    {size : Nat} {fields fields' : Headers} {decoder' : δ}
    (h : decodeFields lib limits fuel decoder bytes size fields =
      (decoder', .ok fields')) :
    decoder' = decodeBlock lib fuel decoder bytes := by
  induction fuel generalizing decoder bytes size fields with
  | zero =>
    cases bytes with
    | nil =>
      simp only [decodeFields, Prod.mk.injEq] at h
      exact h.1.symm
    | cons b bytes => simp [decodeFields] at h
  | succ fuel ih =>
    cases bytes with
    | nil =>
      simp only [decodeFields, Prod.mk.injEq] at h
      exact h.1.symm
    | cons b bytes =>
      unfold decodeFields at h
      unfold decodeBlock
      cases hdecode : lib.decodeExact decoder (b :: bytes) with
      | error e => simp [hdecode] at h
      | ok result =>
        obtain ⟨next, rest, one⟩ := result
        rw [hdecode] at h
        dsimp only at h ⊢
        cases hadd : addFields limits size fields one with
        | error e => simp [hadd] at h
        | ok added =>
          rw [hadd] at h
          exact ih h

theorem settingsSize_ok {payload : Bytes} {size result : Option Nat}
    (h : settingsSize limits payload size = .ok result) :
    result = announcedSize payload size := by
  induction payload, size using settingsSize.induct limits with
  | case1 a b c d e f rest size hid value hlimit =>
    simp only [settingsSize, if_pos hid] at h
    rw [if_pos (show beNat [c, d, e, f] > _ from hlimit)] at h
    cases h
  | case2 a b c d e f rest size hid value hlimit ih =>
    simp only [settingsSize, if_pos hid] at h
    rw [if_neg (show ¬ beNat [c, d, e, f] > _ from hlimit)] at h
    rw [announcedSize, if_pos hid]
    exact ih h
  | case3 a b c d e f rest size hid ih =>
    simp only [settingsSize, if_neg hid] at h
    rw [announcedSize, if_neg hid]
    exact ih h
  | case4 payload size hshort =>
    rw [settingsSize.eq_2 limits payload size hshort] at h
    rw [announcedSize.eq_2 payload size hshort]
    exact (Except.ok.inj h).symm

def linkState (h : Http2 δ) : Sides (Http2Side δ) × Bool := (h.sides, h.preface)

theorem sides_endStream (h : Http2 δ) (side : Direction) (stream : Nat) :
    linkState (h.endStream side stream).state = linkState h := by
  unfold endStream
  split
  · rfl
  · split
    · rfl
    · dsimp only
      split
      · rfl
      · split
        · rfl
        · split <;> rfl

theorem sides_dataFrame (h : Http2 δ) (side : Direction) (f : Frame) :
    linkState (h.dataFrame limits side f).state = linkState h := by
  unfold dataFrame
  split
  · rfl
  · split
    · rfl
    · split
      · rfl
      · split
        · rfl
        · split
          · rfl
          · split
            · rfl
            · dsimp only
              split
              · rw [sides_endStream]
                rfl
              · rfl

theorem sides_openStream (h : Http2 δ) (side : Direction) (stream : Nat) :
    linkState (h.openStream limits side stream).state = linkState h := by
  unfold openStream
  split
  · split
    · rfl
    · split <;> rfl
  · rfl

theorem sides_storeFields (h : Http2 δ) (side : Direction) (block : Block)
    (fields : Headers) :
    linkState (h.storeFields side block fields).state = linkState h := by
  have hfinish : ∀ g : Http2 δ, linkState (if block.endStream = true then
      g.endStream side block.stream else .ok g).state = linkState g := by
    intro g
    split
    · exact sides_endStream g side block.stream
    · rfl
  unfold storeFields
  dsimp only
  split
  · rfl
  · split
    · rfl
    · split
      · split
        · rfl
        · exact hfinish _
      · split
        · rfl
        · split
          · split
            · rfl
            · split <;> rfl
          · exact hfinish _

theorem sides_bind {r : Outcome (Http2 δ) Exchange String}
    {g : Http2 δ → Outcome (Http2 δ) Exchange String}
    (hg : ∀ s, linkState (g s).state = linkState s) :
    linkState (r.bind g).state = linkState r.state := by
  unfold Outcome.bind
  split
  · exact hg r.state
  · rfl

theorem sides_refuseStreams (last code : Nat) (ids : List Nat) (h : Http2 δ) :
    linkState (refuseStreams last code ids h).state = linkState h := by
  induction ids generalizing h with
  | nil => rfl
  | cons id ids ih =>
    unfold refuseStreams
    split
    · exact ih h
    · split
      · rfl
      · dsimp only
        split
        · rw [sides_bind ih]
          rfl
        · rw [ih]
          rfl

variable {h : Http2 δ} {side : Direction}

theorem sides_headers {block : Block}
    (hok : (headers lib limits h side block).error = none) :
    linkState (headers lib limits h side block).state =
      (h.sides.modify side fun s =>
        { s with
          block := none
          decoder :=
            decodeBlock lib block.bytes.length s.decoder block.bytes },
        h.preface) := by
  unfold headers at hok ⊢
  dsimp only at hok ⊢
  cases hguard : HpackGuard.validate block.bytes with
  | error e =>
    rw [hguard] at hok
    cases hok
  | ok u =>
    rw [hguard] at hok
    dsimp only at hok ⊢
    generalize hdecode : decodeFields lib limits block.bytes.length
      ((h.modifySide side fun s => { s with block := none }).sides.get
        side).decoder block.bytes 0 [] = decoded at hok ⊢
    obtain ⟨decoder, result⟩ := decoded
    cases result with
    | error e => cases hok
    | ok fields =>
      have hdecoder := decodeFields_decoder lib limits hdecode
      have hsides : linkState ((h.modifySide side fun s =>
          { s with block := none }).modifySide side fun s =>
            { s with decoder := decoder }) =
          (h.sides.modify side fun s =>
            { s with
              block := none
              decoder :=
                decodeBlock lib block.bytes.length s.decoder block.bytes },
            h.preface) := by
        rw [hdecoder]
        simp only [linkState, modifySide, Sides.modify_modify,
          Sides.get_modify_self, Prod.mk.injEq, and_true]
        refine Sides.ext fun s => ?_
        rw [Sides.get_modify, Sides.get_modify]
        split
        case isTrue hs => rw [hs]; rfl
        case isFalse => rfl
      dsimp only
      split
      · exact hsides
      · rw [sides_bind fun s => sides_storeFields s side block fields,
          sides_openStream]
        exact hsides

variable {f : Frame}

theorem sides_blockFrame
    {block : Block} (hok : (blockFrame lib limits h side f block).error = none) :
    linkState (blockFrame lib limits h side f block).state =
      (if f.flags &&& 4 ≠ 0 then
        h.sides.modify side fun s =>
          { s with
            block := none
            decoder :=
              decodeBlock lib block.bytes.length s.decoder block.bytes }
      else h.sides.modify side fun s => { s with block := some block },
      h.preface) := by
  unfold blockFrame at hok ⊢
  dsimp only at hok ⊢
  split at hok
  case isTrue hflag =>
    rw [if_pos hflag, if_pos hflag, sides_headers lib limits hok]
    simp only [modifySide, Sides.modify_modify]
    rfl
  case isFalse hflag =>
    rw [if_neg hflag, if_neg hflag]
    rfl

theorem sides_continuationFrame
    (hkind : f.kind = 9) (hinter : h.isInterleaved side f = false)
    (hok : (continuationFrame lib limits h side f).error = none) :
    linkState (continuationFrame lib limits h side f).state =
      (sidesAfter lib h.sides side f, h.preface) := by
  have hkind1 : f.kind ≠ 1 := by
    rw [hkind]
    decide
  unfold continuationFrame at hok ⊢
  cases hblock : (h.sides.get side).block with
  | none =>
    rw [hblock] at hok
    cases hok
  | some block =>
    rw [hblock] at hok
    have hstream : f.stream = block.stream := by
      simpa [isInterleaved, hblock, hkind] using hinter
    dsimp only at hok ⊢
    split at hok
    case isTrue => cases hok
    case isFalse hlimit =>
      rw [if_neg hlimit, sides_blockFrame lib limits hok]
      unfold sidesAfter
      dsimp only
      rw [if_neg hkind1, if_pos hkind, hblock]
      split
      · rfl
      · refine Prod.ext (Sides.ext fun s => ?_) rfl
        dsimp only
        rw [Sides.get_modify, Sides.get_modify]
        split
        case isTrue hs =>
          rw [hs, hblock, hstream]
          rfl
        case isFalse => rfl

theorem sides_headersFrame (hkind : f.kind = 1)
    (hok : (headersFrame lib limits h side f).error = none) :
    linkState (headersFrame lib limits h side f).state =
      (sidesAfter lib h.sides side f, h.preface) := by
  unfold headersFrame at hok ⊢
  split at hok
  case isTrue => cases hok
  case isFalse hstream =>
    rw [if_neg hstream]
    cases hdata : headersFragment f.payload f.flags with
    | error e =>
      rw [hdata] at hok
      cases hok
    | ok data =>
      rw [hdata] at hok
      dsimp only at hok ⊢
      split at hok
      case isTrue => cases hok
      case isFalse hlimit =>
        rw [if_neg hlimit, sides_blockFrame lib limits hok]
        unfold sidesAfter
        dsimp only
        rw [if_pos hkind, hdata]
        simp only [if_pos hkind]
        rfl

theorem sides_settingsFrame (hkind : f.kind = 4)
    (hok : (settingsFrame lib limits h side f).error = none) :
    linkState (settingsFrame lib limits h side f).state =
        (sidesAfter lib h.sides side f, h.preface) ∧
      (f.flags &&& 1 ≠ 0 → (h.sides.get side).settings ≠ []) := by
  have hafter : sidesAfter lib h.sides side f =
      if f.flags &&& 1 ≠ 0 then
        h.sides.modify side fun s =>
          { s with
            settings := s.settings.tail
            decoder := (resizeOps (s.settings.head?.getD none)).foldl
              (applyOp lib) s.decoder }
      else
        h.sides.modify side.other fun s =>
          { s with settings :=
              s.settings ++ [announcedSize f.payload none] } := by
    unfold sidesAfter
    dsimp only
    rw [if_neg (by rw [hkind]; decide), if_neg (by rw [hkind]; decide), if_pos hkind]
  rw [hafter]
  unfold settingsFrame at hok ⊢
  split at hok
  case isTrue => cases hok
  case isFalse hstream =>
    rw [if_neg hstream]
    split at hok
    case isTrue hack =>
      rw [if_pos hack, if_pos hack]
      split at hok
      case isTrue => cases hok
      case isFalse hempty =>
        rw [if_neg hempty]
        cases hqueue : (h.sides.get side).settings with
        | nil =>
          rw [hqueue] at hok
          cases hok
        | cons size settings =>
          refine ⟨?_, fun _ => List.cons_ne_nil _ _⟩
          refine Prod.ext (Sides.ext fun s => ?_) rfl
          simp only [Outcome.ok, linkState, modifySide]
          rw [Sides.get_modify, Sides.get_modify]
          split
          case isTrue hs =>
            rw [hs, hqueue]
            cases size <;> rfl
          case isFalse => rfl
    case isFalse hack =>
      rw [if_neg hack, if_neg hack]
      refine ⟨?_, fun h => absurd h hack⟩
      split at hok
      case isTrue => cases hok
      case isFalse hlength =>
        rw [if_neg hlength]
        cases hsize : settingsSize limits f.payload none with
        | error e =>
          rw [hsize] at hok
          cases hok
        | ok size =>
          rw [hsize] at hok
          dsimp only at hok ⊢
          split at hok
          case isTrue => cases hok
          case isFalse hfull =>
            rw [if_neg hfull, settingsSize_ok limits hsize]
            rfl

theorem sides_rstStreamFrame (h : Http2 δ) (side : Direction) (f : Frame) :
    linkState (h.rstStreamFrame side f).state = linkState h := by
  have hreset : linkState (h.recordReset side f.stream) = linkState h := by
    unfold recordReset
    split <;> rfl
  unfold rstStreamFrame
  split
  · rfl
  · dsimp only
    split
    · exact hreset
    · exact hreset

theorem sides_goawayFrame (h : Http2 δ) (side : Direction) (f : Frame) :
    linkState (h.goawayFrame side f).state = linkState h := by
  unfold goawayFrame
  split
  · rfl
  · dsimp only
    split
    · rfl
    · rw [sides_refuseStreams]
      rfl

theorem sides_frame (hok : (frame lib limits h side f).error = none) :
    linkState (frame lib limits h side f).state =
        (sidesAfter lib h.sides side f, h.preface) ∧
      (f.kind = 4 → f.flags &&& 1 ≠ 0 → (h.sides.get side).settings ≠ []) := by
  have hother : f.kind ≠ 1 → f.kind ≠ 9 → f.kind ≠ 4 →
      linkState h = (sidesAfter lib h.sides side f, h.preface) := by
    intro h1 h9 h4
    unfold sidesAfter
    dsimp only
    rw [if_neg h1, if_neg h9, if_neg h4]
    rfl
  have hkinds : ∀ {k : UInt8}, f.kind = k → k ≠ 1 → k ≠ 9 → k ≠ 4 →
      linkState h = (sidesAfter lib h.sides side f, h.preface) ∧
        (f.kind = 4 → f.flags &&& 1 ≠ 0 → (h.sides.get side).settings ≠ []) := by
    rintro k rfl h1 h9 h4
    exact ⟨hother h1 h9 h4, fun hk => absurd hk h4⟩
  have hinter := frame_in_turn lib limits hok
  rw [frame, if_neg hinter] at hok ⊢
  by_cases h0 : f.kind = 0
  · rw [if_pos h0, sides_dataFrame]
    exact hkinds h0 (by decide) (by decide) (by decide)
  rw [if_neg h0] at hok ⊢
  by_cases h1 : f.kind = 1
  · rw [if_pos h1] at hok ⊢
    exact ⟨sides_headersFrame lib limits h1 hok,
      fun h4 => absurd (h1.symm.trans h4) (by decide)⟩
  rw [if_neg h1] at hok ⊢
  by_cases h9 : f.kind = 9
  · rw [if_pos h9] at hok ⊢
    exact ⟨sides_continuationFrame lib limits h9 (by simpa using hinter) hok,
      fun h4 => absurd (h9.symm.trans h4) (by decide)⟩
  rw [if_neg h9] at hok ⊢
  by_cases h4 : f.kind = 4
  · rw [if_pos h4] at hok ⊢
    obtain ⟨heq, hq⟩ := sides_settingsFrame lib limits h4 hok
    exact ⟨heq, fun _ => hq⟩
  rw [if_neg h4, ← hother h1 h9 h4]
  refine ⟨?_, fun hk => absurd hk h4⟩
  split
  · exact sides_rstStreamFrame h side f
  · split
    · exact sides_goawayFrame h side f
    · repeat' split
      all_goals rfl

/-! ## The invariant -/

structure DecoderView (δ : Type) where
  block : Option Bytes
  settings : List (Option Nat)
  decoder : δ

def sideView (side : Http2Side δ) : DecoderView δ :=
  ⟨side.block.map Block.bytes, side.settings, side.decoder⟩

def specView (sizes : List (Option Nat)) (frames : List Frame) :
    DecoderView δ :=
  ⟨(wireView sizes frames).openBlock,
    sizes.drop (wireView sizes frames).acks, hpackFold lib sizes frames⟩

def DecoderView.addFragment (view : DecoderView δ) (flags : UInt8)
    (bytes : Bytes) : DecoderView δ :=
  if flags &&& 4 ≠ 0 then
    { view with
      block := none
      decoder := decodeBlock lib bytes.length view.decoder bytes }
  else { view with block := some bytes }

def DecoderView.own (view : DecoderView δ) (f : Frame) : DecoderView δ :=
  if f.kind = 1 then
    view.addFragment lib f.flags
      ((headersFragment f.payload f.flags).toOption.getD [])
  else if f.kind = 9 then
    view.addFragment lib f.flags (view.block.getD [] ++ f.payload)
  else if f.kind = 4 ∧ f.flags &&& 1 ≠ 0 then
    { view with
      settings := view.settings.tail
      decoder := (resizeOps (view.settings.head?.getD none)).foldl
        (applyOp lib) view.decoder }
  else view

def DecoderView.peer (view : DecoderView δ) (f : Frame) : DecoderView δ :=
  if f.kind = 4 ∧ f.flags &&& 1 = 0 then
    { view with
      settings := view.settings ++ [announcedSize f.payload none] }
  else view

theorem sideView_own (sides : Sides (Http2Side δ)) (side : Direction)
    (f : Frame) :
    sideView ((sidesAfter lib sides side f).get side) =
      (sideView (sides.get side)).own lib f := by
  unfold sidesAfter DecoderView.own
  dsimp only
  split
  · unfold DecoderView.addFragment
    split <;> simp [sideView]
  · split
    · unfold DecoderView.addFragment
      split <;> simp [sideView]
    · by_cases h4 : f.kind = 4 <;> by_cases hack : f.flags &&& 1 = 0 <;>
        simp [h4, hack, sideView, Sides.get_modify, (Direction.other_ne side).symm]

theorem sideView_peer (sides : Sides (Http2Side δ)) (side : Direction)
    (f : Frame) :
    sideView ((sidesAfter lib sides side f).get side.other) =
      (sideView (sides.get side.other)).peer f := by
  unfold sidesAfter DecoderView.peer
  dsimp only
  by_cases h1 : f.kind = 1
  · by_cases hend : f.flags &&& 4 = 0 <;> simp [h1, hend, sideView]
  · by_cases h9 : f.kind = 9
    · by_cases hend : f.flags &&& 4 = 0 <;> simp [h9, hend, sideView]
    · by_cases h4 : f.kind = 4 <;> by_cases hack : f.flags &&& 1 = 0 <;>
        simp [h1, h9, h4, hack, sideView]

variable {frames : List Frame}

theorem specView_own {sizes : List (Option Nat)} :
    specView lib sizes (frames ++ [f]) = (specView lib sizes frames).own lib f := by
  unfold specView hpackFold
  rw [wireView_snoc]
  generalize wireView sizes frames = view
  unfold wireStep DecoderView.own
  split
  · unfold WireView.addFragment DecoderView.addFragment
    split <;> simp [applyOp]
  · split
    · unfold WireView.addFragment DecoderView.addFragment
      split <;> simp [applyOp]
    · split
      · simp [List.head?_drop, List.tail_drop]
      · rfl

theorem specView_peer {sizes : List (Option Nat)} (more : List (Option Nat))
    (h : (wireView sizes frames).acks ≤ sizes.length) :
    specView lib (sizes ++ more) frames =
      { specView lib sizes frames with
        settings := (specView lib sizes frames).settings ++ more } := by
  unfold specView hpackFold
  rw [wireView_append_sizes more h, List.drop_append_of_le_length h]

structure HpackInv (sides : Sides (Http2Side δ))
    (wire : Direction → List Frame) : Prop where
  view : ∀ side, sideView (sides.get side) =
    specView lib (announced (wire side.other)) (wire side)
  acks : ∀ side, (wireView (announced (wire side.other)) (wire side)).acks ≤
    (announced (wire side.other)).length

def addFrame (wire : Direction → List Frame) (side : Direction) (f : Frame) :
    Direction → List Frame :=
  fun s => if s = side then wire s ++ [f] else wire s

variable {wire : Direction → List Frame}

theorem HpackInv.frame (hinv : HpackInv lib h.sides wire)
    (hok : (Http2.frame lib limits h side f).error = none) :
    HpackInv lib (Http2.frame lib limits h side f).state.sides
      (addFrame wire side f) := by
  obtain ⟨hlink, hqueue⟩ := sides_frame lib limits hok
  have hsides : (Http2.frame lib limits h side f).state.sides =
      sidesAfter lib h.sides side f := congrArg Prod.fst hlink
  have hown : addFrame wire side f side = wire side ++ [f] := if_pos rfl
  have hother : addFrame wire side f side.other = wire side.other :=
    if_neg (Direction.other_ne side)
  have hview := hinv.view side
  have hpeer := hinv.view side.other
  have hacks := hinv.acks side
  have hacksPeer := hinv.acks side.other
  rw [Direction.other_other] at hpeer hacksPeer
  -- An acknowledgement finds the size it is for.
  have hack : (wireView (announced (wire side.other)) (wire side ++ [f])).acks ≤
      (announced (wire side.other)).length := by
    rw [wireView_snoc]
    unfold wireStep
    split
    · rwa [addFragment_acks]
    · split
      · rwa [addFragment_acks]
      · split
        case isTrue hk =>
          have hne := hqueue hk.1 hk.2
          have hset : (h.sides.get side).settings =
              (announced (wire side.other)).drop
                (wireView (announced (wire side.other)) (wire side)).acks :=
            congrArg DecoderView.settings hview
          rw [hset] at hne
          have hlt := List.length_pos_iff.2 hne
          rw [List.length_drop] at hlt
          dsimp only
          omega
        case isFalse => exact hacks
  have hboth : ∀ {P : Direction → Prop}, P side → P side.other →
      ∀ s, P s := by
    intro P h1 h2 s
    cases side <;> cases s <;> assumption
  constructor
  · refine hboth ?_ ?_
    · rw [hsides, sideView_own, hview, hown, hother, specView_own]
    · rw [hsides, sideView_peer, hpeer, Direction.other_other, hown, hother,
        announced_snoc]
      unfold DecoderView.peer
      split
      · rw [specView_peer lib _ hacksPeer]
      · rw [List.append_nil]
  · refine hboth ?_ ?_
    · rw [hown, hother]
      exact hack
    · rw [Direction.other_other, hown, hother, announced_snoc,
        wireView_append_sizes _ hacksPeer, List.length_append]
      omega

/-! ## Frames on the wire -/

theorem buffer_sidesAfter (sides : Sides (Http2Side δ)) (side s : Direction)
    (f : Frame) :
    ((sidesAfter lib sides side f).get s).buffer = (sides.get s).buffer := by
  unfold sidesAfter
  dsimp only
  repeat' split
  all_goals
    try rw [Sides.get_modify]
    try split
    all_goals rfl

variable {h' : Http2 δ} {out : List Exchange}

theorem turn_more (hturn : turn lib limits side h = .more h' out) :
    (side = .client ∧ h.preface = false ∧ out = [] ∧
      prefaceBytes.length ≤ (h.sides.get side).buffer.length ∧
      h' = { h.drop side prefaceBytes.length with preface := true }) ∨
    ((side = .server ∨ h.preface = true) ∧ ∃ n f,
      parseFrame limits (h.sides.get side).buffer = .complete n f ∧
      (frame lib limits (h.drop side n) side f).error = none ∧
      h' = (frame lib limits (h.drop side n) side f).state ∧
      out = (frame lib limits (h.drop side n) side f).out) := by
  unfold turn at hturn
  dsimp only at hturn
  split at hturn
  case isTrue hpre =>
    split at hturn
    · cases hturn
    · split at hturn
      · cases hturn
      · cases hturn
        simp only [Bool.and_eq_true, beq_iff_eq, Bool.not_eq_true'] at hpre
        exact Or.inl ⟨hpre.1, hpre.2, rfl, by omega, rfl⟩
  case isFalse hpre =>
    have hmode : side = .server ∨ h.preface = true := by
      cases side <;> simp_all
    split at hturn
    · cases hturn
    · cases hturn
    · next n f hparse =>
      split at hturn
      · next hnone =>
        cases hturn
        exact Or.inr ⟨hmode, n, f, hparse, hnone, rfl, rfl⟩
      · cases hturn

theorem turn_shrinks (hturn : turn lib limits side h = .more h' out) :
    bufferSize side h' < bufferSize side h := by
  rcases turn_more lib limits hturn with
    ⟨-, -, -, hlen, rfl⟩ | ⟨-, n, f, hparse, hok, rfl, -⟩
  · unfold bufferSize
    have hbuf : (({ h.drop side prefaceBytes.length with
        preface := true } : Http2 δ).sides.get side).buffer =
        (h.sides.get side).buffer.drop prefaceBytes.length :=
      buffer_drop h side prefaceBytes.length
    rw [hbuf, List.length_drop]
    have : prefaceBytes.length = 24 := by decide
    omega
  · obtain ⟨hpos, hle⟩ := parseFrame_complete hparse
    unfold bufferSize
    rw [show (frame lib limits (h.drop side n) side f).state.sides = _ from
      congrArg Prod.fst (sides_frame lib limits hok).1, buffer_sidesAfter,
      buffer_drop, List.length_drop]
    omega

def framesFrom : Nat → Bytes → List Frame
  | 0, _ => []
  | fuel + 1, bytes =>
    match parseFrame limits bytes with
    | .complete n f => f :: framesFrom fuel (bytes.drop n)
    | _ => []

def prefaceLength : Direction → Nat
  | .client => prefaceBytes.length
  | .server => 0

def wireFrames (side : Direction) (bytes : Bytes) : List Frame :=
  framesFrom limits bytes.length (bytes.drop (prefaceLength side))

/-- `frames` can be cut off `bytes` one by one, leaving `rest`. -/
inductive Consumes (bytes : Bytes) : List Frame → Bytes → Prop where
  | nil : Consumes bytes [] bytes
  | snoc {frames rest n f} (h : Consumes bytes frames rest)
      (hparse : parseFrame limits rest = .complete n f) :
      Consumes bytes (frames ++ [f]) (rest.drop n)

variable {limits}

theorem Consumes.append {bytes rest : Bytes}
    (h : Consumes limits bytes frames rest) (y : Bytes) :
    Consumes limits (bytes ++ y) frames (rest ++ y) := by
  induction h with
  | nil => exact .nil
  | @snoc frames rest n f h hparse ih =>
    have hlong := parseFrame_complete hparse
    have happend : parseFrame limits (rest ++ y) = .complete n f := by
      rw [parseFrame_append y (by rw [hparse]; simp), hparse]
    rw [← List.drop_append_of_le_length hlong.2]
    exact .snoc ih happend

theorem Consumes.framesFrom_eq {bytes rest : Bytes}
    (h : Consumes limits bytes frames rest) {fuel : Nat}
    (hfuel : bytes.length ≤ fuel) :
    ∃ fuel', rest.length ≤ fuel' ∧
      framesFrom limits fuel bytes = frames ++ framesFrom limits fuel' rest := by
  induction h with
  | nil => exact ⟨fuel, hfuel, rfl⟩
  | @snoc frames rest n f h hparse ih =>
    obtain ⟨fuel', hle, heq⟩ := ih
    have hlong := parseFrame_complete hparse
    obtain ⟨k, rfl⟩ : ∃ k, fuel' = k + 1 := ⟨fuel' - 1, by omega⟩
    refine ⟨k, by rw [List.length_drop]; omega, ?_⟩
    rw [heq, framesFrom, hparse, List.append_assoc]
    rfl

variable (limits)

def InFrames (h : Http2 δ) (side : Direction) : Prop :=
  side = .server ∨ h.preface = true

structure FeedInv (h : Http2 δ) (bytes : Direction → Bytes)
    (wire : Direction → List Frame) : Prop where
  hpack : HpackInv lib h.sides wire
  frames : ∀ side, InFrames h side →
    prefaceLength side ≤ (bytes side).length ∧
      Consumes limits ((bytes side).drop (prefaceLength side)) (wire side)
        (h.sides.get side).buffer
  before : ∀ side, ¬ InFrames h side →
    wire side = [] ∧ (h.sides.get side).buffer = bytes side

structure Idle (h : Http2 δ) (side : Direction) : Prop where
  frames : InFrames h side → parseFrame limits (h.sides.get side).buffer = .incomplete
  before : ¬ InFrames h side → (h.sides.get side).buffer.length < prefaceBytes.length

variable {lib limits}

variable {bytes : Direction → Bytes}

theorem FeedInv.wireFrames_eq (hinv : FeedInv lib limits h bytes wire)
    (hidle : Idle limits h side) :
    wire side = wireFrames limits side (bytes side) := by
  by_cases hin : InFrames h side
  · obtain ⟨-, hcut⟩ := hinv.frames side hin
    have hfuel : ((bytes side).drop (prefaceLength side)).length ≤
        (bytes side).length := by
      rw [List.length_drop]
      omega
    obtain ⟨fuel, -, heq⟩ := hcut.framesFrom_eq hfuel
    rw [wireFrames, heq]
    cases fuel with
    | zero => simp [framesFrom]
    | succ fuel => simp [framesFrom, hidle.frames hin]
  · obtain ⟨hwire, hbuffer⟩ := hinv.before side hin
    have hshort := hidle.before hin
    rw [hbuffer] at hshort
    have hclient : side = .client := by
      cases side
      · rfl
      · exact absurd (Or.inl rfl) hin
    have hlength : (bytes side).length ≤ prefaceLength side := by
      rw [hclient] at hshort ⊢
      exact hshort.le
    have hempty : parseFrame limits [] = .incomplete := rfl
    rw [hwire, wireFrames, List.drop_eq_nil_of_le hlength]
    cases (bytes side).length <;> simp [framesFrom, hempty]

theorem FeedInv.extend (hinv : FeedInv lib limits h bytes wire) (side : Direction)
    (data : Bytes) :
    FeedInv lib limits (Http2.extend side h data)
      (fun s => if s = side then bytes s ++ data else bytes s) wire := by
  have hview : ∀ s, sideView ((Http2.extend side h data).sides.get s) =
      sideView (h.sides.get s) := by
    intro s
    simp only [Http2.extend, modifySide, Sides.get_modify]
    split <;> rfl
  constructor
  · exact ⟨fun s => (hview s).trans (hinv.hpack.view s), hinv.hpack.acks⟩
  · intro s hin
    obtain ⟨hlength, hcut⟩ := hinv.frames s hin
    simp only [Http2.extend, modifySide, Sides.get_modify]
    split
    · refine ⟨by rw [List.length_append]; omega, ?_⟩
      rw [List.drop_append_of_le_length hlength]
      exact hcut.append data
    · exact ⟨hlength, hcut⟩
  · intro s hin
    obtain ⟨hwire, hbuffer⟩ := hinv.before s hin
    refine ⟨hwire, ?_⟩
    simp only [Http2.extend, modifySide, Sides.get_modify]
    split
    · exact congrArg (· ++ data) hbuffer
    · exact hbuffer

theorem turn_other (hturn : turn lib limits side h = .more h' out) :
    (h'.sides.get side.other).buffer = (h.sides.get side.other).buffer ∧
      (InFrames h' side.other ↔ InFrames h side.other) := by
  rcases turn_more lib limits hturn with
    ⟨rfl, -, -, -, rfl⟩ | ⟨-, n, f, -, hok, rfl, -⟩
  · refine ⟨?_, ?_⟩
    · exact congrArg Http2Side.buffer (Sides.get_modify_other h.sides .client _)
    · exact ⟨fun _ => Or.inl rfl, fun _ => Or.inl rfl⟩
  · have hlink := (sides_frame lib limits hok).1
    have hsides := congrArg Prod.fst hlink
    have hpreface := congrArg Prod.snd hlink
    dsimp only [linkState] at hsides hpreface
    refine ⟨?_, ?_⟩
    · rw [hsides, buffer_sidesAfter]
      exact congrArg Http2Side.buffer (Sides.get_modify_other h.sides side _)
    · unfold InFrames
      rw [hpreface]
      rfl

theorem FeedInv.turn (hinv : FeedInv lib limits h bytes wire)
    (hturn : Http2.turn lib limits side h = .more h' out) :
    ∃ wire', FeedInv lib limits h' bytes wire' := by
  obtain ⟨hbuffer, hmode⟩ := turn_other hturn
  have hboth : ∀ {P : Direction → Prop}, P side → P side.other →
      ∀ s, P s := by
    intro P h1 h2 s
    cases side <;> cases s <;> assumption
  rcases turn_more lib limits hturn with
    ⟨rfl, hpre, -, hlength, rfl⟩ | ⟨hin, n, f, hparse, hok, rfl, -⟩
  · -- The preface: no frame has been cut off yet.
    have hnot : ¬ InFrames h .client := by
      rintro (hs | hs)
      · cases hs
      · simp [hpre] at hs
    obtain ⟨hwire, hbytes⟩ := hinv.before .client hnot
    refine ⟨wire, ?_, hboth ?_ ?_, hboth ?_ ?_⟩
    · refine ⟨fun s => ?_, hinv.hpack.acks⟩
      rw [← hinv.hpack.view s]
      simp only [Http2.drop, modifySide, Sides.get_modify]
      split <;> rfl
    · intro _
      refine ⟨by rw [← hbytes]; exact hlength, ?_⟩
      rw [hwire, ← hbytes]
      simp only [Http2.drop, modifySide, Sides.get_modify_self]
      exact .nil
    · intro hin
      rw [hbuffer]
      exact hinv.frames _ (hmode.1 hin)
    · exact fun hout => absurd (Or.inr rfl) hout
    · intro hout
      rw [hbuffer]
      exact hinv.before _ (fun hin => hout (hmode.2 hin))
  · have hlink := (sides_frame lib limits hok).1
    have hsides := congrArg Prod.fst hlink
    have hpreface := congrArg Prod.snd hlink
    dsimp only [linkState] at hsides hpreface
    have hdrop : HpackInv lib (h.drop side n).sides wire := by
      refine ⟨fun s => ?_, hinv.hpack.acks⟩
      rw [← hinv.hpack.view s]
      simp only [Http2.drop, modifySide, Sides.get_modify]
      split <;> rfl
    have hother : addFrame wire side f side.other = wire side.other :=
      if_neg (Direction.other_ne side)
    refine ⟨addFrame wire side f, hdrop.frame lib limits hok, hboth ?_ ?_,
      hboth ?_ ?_⟩
    · intro _
      obtain ⟨hlength, hcut⟩ := hinv.frames side hin
      refine ⟨hlength, ?_⟩
      rw [hsides, buffer_sidesAfter, buffer_drop,
        show addFrame wire side f side = wire side ++ [f] from if_pos rfl]
      exact .snoc hcut hparse
    · intro hin'
      rw [hbuffer, hother]
      exact hinv.frames _ (hmode.1 hin')
    · intro hout
      refine absurd ?_ hout
      rcases hin with hs | hs
      · exact Or.inl hs
      · exact Or.inr (hpreface.trans hs)
    · intro hout
      rw [hbuffer, hother]
      exact hinv.before _ (fun hin' => hout (hmode.2 hin'))

theorem turn_wait (hturn : turn lib limits side h = .wait h' out) :
    h' = h ∧ out = [] ∧ Idle limits h side := by
  unfold turn at hturn
  dsimp only at hturn
  split at hturn
  case isTrue hpre =>
    split at hturn
    · cases hturn
    · split at hturn
      case isTrue hshort =>
        cases hturn
        simp only [Bool.and_eq_true, beq_iff_eq, Bool.not_eq_true'] at hpre
        refine ⟨rfl, rfl, ?_, fun _ => hshort⟩
        rintro (hs | hs)
        · simp [hpre.1] at hs
        · simp [hpre.2] at hs
      case isFalse => cases hturn
  case isFalse hpre =>
    have hmode : InFrames h side := by
      unfold InFrames
      cases side <;> simp_all
    split at hturn
    · next hparse =>
      cases hturn
      exact ⟨rfl, rfl, fun _ => hparse, fun hout => absurd hmode hout⟩
    · cases hturn
    · split at hturn <;> cases hturn

theorem FeedInv.feed (hinv : FeedInv lib limits h bytes wire)
    (hidle : ∀ side, Idle limits h side) {data : Bytes}
    (hok : (Http2.feed lib limits h side data).error = none) :
    (∃ wire', FeedInv lib limits (Http2.feed lib limits h side data).state
      (fun s => if s = side then bytes s ++ data else bytes s) wire') ∧
    ∀ s, Idle limits (Http2.feed lib limits h side data).state s := by
  have hother : Idle limits (Http2.extend side h data) side.other := by
    have hsame : (Http2.extend side h data).sides.get side.other =
        h.sides.get side.other := Sides.get_modify_other h.sides side _
    have hold := hidle side.other
    exact ⟨fun hin => by rw [hsame]; exact hold.frames hin,
      fun hout => by rw [hsame]; exact hold.before hout⟩
  have hloop := exhaust_induction (turn_shrinks lib limits)
    (P := fun g r => ∀ wire bytes, FeedInv lib limits g bytes wire →
      Idle limits g side.other → r.error = none →
      (∃ wire', FeedInv lib limits r.state bytes wire') ∧ ∀ s, Idle limits r.state s)
    (by
      intro g g' out r hturn hrest wire bytes hinv hidle hok
      obtain ⟨wire', hinv'⟩ := hinv.turn hturn
      obtain ⟨hbuffer, hmode⟩ := turn_other hturn
      refine hrest wire' bytes hinv' ?_ hok
      exact ⟨fun hin => by rw [hbuffer]; exact hidle.frames (hmode.1 hin),
        fun hout => by
          rw [hbuffer]
          exact hidle.before fun hin => hout (hmode.2 hin)⟩)
    (by
      intro g g' out hturn wire bytes hinv hidle _
      obtain ⟨rfl, -, hown⟩ := turn_wait hturn
      refine ⟨⟨wire, hinv⟩, fun s => ?_⟩
      cases side <;> cases s <;> assumption)
    (by
      intro g g' out e _ wire bytes _ _ hok
      cases hok)
    (Http2.extend side h data)
  exact hloop wire _ (hinv.extend side data) hother hok

variable (lib limits)

/-- A run of `feed` calls on both directions. -/
def feedAll : Http2 δ → List (Direction × Bytes) →
    Outcome (Http2 δ) Exchange String
  | h, [] => .ok h
  | h, (side, data) :: calls =>
    (Http2.feed lib limits h side data).bind fun h => feedAll h calls

def sent (side : Direction) (calls : List (Direction × Bytes)) : Bytes :=
  calls.flatMap fun call => if side = call.1 then call.2 else []

variable {lib limits}

theorem FeedInv.feedAll (hinv : FeedInv lib limits h bytes wire)
    (hidle : ∀ side, Idle limits h side) {calls : List (Direction × Bytes)}
    (hok : (feedAll lib limits h calls).error = none) :
    (∃ wire', FeedInv lib limits (Protocol.feedAll lib limits h calls).state
      (fun s => bytes s ++ sent s calls) wire') ∧
    ∀ s, Idle limits (Protocol.feedAll lib limits h calls).state s := by
  induction calls generalizing h bytes wire with
  | nil =>
    refine ⟨⟨wire, ?_⟩, hidle⟩
    simpa [Protocol.feedAll, sent, Outcome.ok] using hinv
  | cons call calls ih =>
    obtain ⟨side, data⟩ := call
    unfold Protocol.feedAll at hok ⊢
    cases hfeed : (Http2.feed lib limits h side data).error with
    | some e =>
      rw [Outcome.bind_of_error hfeed, hfeed] at hok
      cases hok
    | none =>
      rw [Outcome.bind_of_ok hfeed] at hok ⊢
      obtain ⟨⟨wire', hinv'⟩, hidle'⟩ := hinv.feed hidle hfeed
      obtain ⟨⟨wire'', hinv''⟩, hidle''⟩ := ih hinv' hidle' hok
      refine ⟨⟨wire'', ?_⟩, hidle''⟩
      have hbytes : (fun s => (if s = side then bytes s ++ data
          else bytes s) ++ sent s calls) =
          fun s => bytes s ++ sent s ((side, data) :: calls) := by
        funext s
        simp only [sent, List.flatMap_cons]
        split <;> simp
      rw [hbytes] at hinv''
      exact hinv''

theorem feedInv_new : FeedInv lib limits (Http2.new lib) (fun _ => [])
    (fun _ => []) := by
  refine ⟨⟨?_, ?_⟩, ?_, ?_⟩
  · intro side
    cases side <;> rfl
  · intro side
    simp [wireView]
  · rintro side (rfl | hpre)
    · exact ⟨Nat.le_refl _, .nil⟩
    · cases hpre
  · intro side _
    cases side <;> exact ⟨rfl, rfl⟩

private theorem idle_new (side : Direction) : Idle limits (Http2.new lib) side := by
  have hpos : 0 < prefaceBytes.length := by decide
  cases side <;> exact ⟨fun _ => rfl, fun _ => hpos⟩

end Frames

/--
The decoder of each side has gone through the header blocks of its side in
wire order, once each, and the table sizes of its peer at the
acknowledgements, in every accepted run of the two directions.
-/
theorem hpack_follows_wire {δ ι : Type} (lib : Library δ ι) (limits : Limits)
    (calls : List (Direction × Bytes))
    (hok : (feedAll lib limits (.new lib) calls).error = none)
    (side : Direction) :
    ((feedAll lib limits (.new lib) calls).state.sides.get side).decoder =
      hpackFold lib
        (announced (wireFrames limits side.other (sent side.other calls)))
        (wireFrames limits side (sent side calls)) := by
  obtain ⟨⟨wire, hinv⟩, hidle⟩ := feedInv_new.feedAll idle_new hok
  have hview := congrArg DecoderView.decoder (hinv.hpack.view side)
  rw [hinv.wireFrames_eq (hidle side), hinv.wireFrames_eq (hidle side.other)]
    at hview
  simpa [sideView, specView] using hview

/-- The server announces a table of 8192 octets, the client acknowledges it
and sends a request whose block is cut in two. -/
def acknowledgedRequest : List (Direction × Bytes) :=
  [(.server, [0, 0, 6, 4, 0, 0, 0, 0, 0, 0, 1, 0, 0, 32, 0]),
    (.client, prefaceBytes ++ [0, 0, 0, 4, 1, 0, 0, 0, 0]),
    (.client, [0, 0, 1, 1, 0, 0, 0, 0, 1, 0x82, 0, 0, 2, 9]),
    (.client, [4, 0, 0, 0, 1, 0x86, 0x84])]

theorem hpack_follows_wire_acknowledged :
    ((feedAll staticLibrary smallLimits (.new staticLibrary)
      acknowledgedRequest).state.sides.get .client).decoder = 8192 ∧
    ((feedAll staticLibrary smallLimits (.new staticLibrary)
      acknowledgedRequest).state.sides.get .client).decoder =
      hpackFold staticLibrary
        (announced (wireFrames smallLimits .server
          (sent .server acknowledgedRequest)))
        (wireFrames smallLimits .client (sent .client acknowledgedRequest)) :=
  ⟨by decide, hpack_follows_wire staticLibrary smallLimits acknowledgedRequest
    (by decide) .client⟩

end ProxyLane.Protocol
