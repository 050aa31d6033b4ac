/-
The gateway stream framing of virtio-net (`GatewayFrames` and
`VirtioNet::relay_to_gateway` in `devices::virtio::net`).

The gateway socket is a byte stream that carries each frame as a 4-byte
big-endian length followed by the frame; a zero length is a keepalive.
`GatewayFrames` reassembles the frames from whatever each receive returns.

* `drain_spec` — draining consumes whole items of the stream and stops inside
  one, whatever follows;
* `feed_spec` — pushing and draining chunk after chunk keeps the parser at a cut
  point of the stream;
* `gateway_frames_round_trip` — every cut of every stream yields the frames in
  order, with the buffer bounded by the longest chunk;
* `gateway_buffer_unbounded` — without a bound on the chunks there is none on the
  buffer.

Every index the source takes is checked here: `outOfRange` stands for the panic
of an index past `buf`, so an `ok` result says that none was taken.
-/
import HviVmm.ByteCodec

open ByteCodec

/-- The largest frame the readers accept. -/
def maxFrameLen : ℕ := 65536

/-- The size of the length prefix on each frame. -/
def frameLenPrefix : ℕ := 4

/-- How `push` and `next_frame` can fail. -/
inductive FrameError where
  /-- An index outside `buf`. -/
  | outOfRange
  /-- A length above `maxFrameLen`. -/
  | tooLong (len : ℕ)
  deriving DecidableEq, Repr

/-- The text of the `InvalidData` error. -/
def FrameError.message : FrameError → String
  | outOfRange => "index out of range"
  | tooLong len =>
    "gateway frame of " ++ toString len ++ " bytes exceeds " ++ toString maxFrameLen

/-- What was read from the gateway. -/
structure GatewayFrames where
  buf : List UInt8 := []
  /-- Offset of the first byte not yet consumed. -/
  start : ℕ := 0
  deriving DecidableEq, Repr

namespace GatewayFrames

/-- The bytes received and not yet consumed. -/
def pending (g : GatewayFrames) : List UInt8 := g.buf.drop g.start

/-- Adds what was read. -/
def push (g : GatewayFrames) (bytes : List UInt8) : Except FrameError GatewayFrames :=
  if g.start ≤ g.buf.length then
    if g.buf.length - g.start ≤ g.start then
      .ok ⟨g.buf.drop g.start ++ bytes, 0⟩
    else .ok ⟨g.buf ++ bytes, g.start⟩
  else .error .outOfRange

/-- `&buf[lo..hi]`. -/
def slice (buf : List UInt8) (lo hi : ℕ) : Except FrameError (List UInt8) :=
  if lo ≤ hi ∧ hi ≤ buf.length then .ok ((buf.take hi).drop lo) else .error .outOfRange

/-- The next complete frame, or `none` until more bytes arrive. -/
def nextFrame (g : GatewayFrames) : Except FrameError (Option (List UInt8) × GatewayFrames) :=
  if _hs : g.start ≤ g.buf.length then
    if _hp : g.pending.length < frameLenPrefix then .ok (none, g)
    else
      let len := beNat (g.pending.take frameLenPrefix)
      -- a keepalive: go round the loop again
      if len = 0 then nextFrame { g with start := g.start + frameLenPrefix }
      else if maxFrameLen < len then .error (.tooLong len)
      else if g.pending.length < frameLenPrefix + len then .ok (none, g)
      else do
        let frame ← slice g.buf (g.start + frameLenPrefix) (g.start + frameLenPrefix + len)
        .ok (some frame, { g with start := g.start + frameLenPrefix + len })
  else .error .outOfRange
  termination_by g.buf.length - g.start
  decreasing_by
    simp only [pending, List.length_drop, frameLenPrefix] at *
    omega

end GatewayFrames

/-! ### The stream -/

/-- What the writer puts on the stream. -/
inductive StreamItem where
  | keepalive
  | frame (bytes : List UInt8)
  deriving DecidableEq, Repr

/-- The bytes `relay_to_gateway` writes for one frame. -/
def relayToGateway (frame : List UInt8) : List UInt8 :=
  beBytes 4 (UInt32.ofNat frame.length).toNat ++ frame

namespace StreamItem

variable {i : StreamItem}

def encode : StreamItem → List UInt8
  | keepalive => beBytes 4 0
  | frame bytes => relayToGateway bytes

/-- A frame the readers accept: not empty and not too long. -/
def Ok : StreamItem → Prop
  | keepalive => True
  | frame bytes => bytes ≠ [] ∧ bytes.length ≤ maxFrameLen

def frame? : StreamItem → Option (List UInt8)
  | keepalive => none
  | frame bytes => some bytes

/-- The length field an item carries. -/
def bodyLen : StreamItem → ℕ
  | keepalive => 0
  | frame bytes => bytes.length

def body : StreamItem → List UInt8
  | keepalive => []
  | frame bytes => bytes

theorem bodyLen_le (h : i.Ok) : i.bodyLen ≤ maxFrameLen := by
  cases i with
  | keepalive => exact Nat.zero_le _
  | frame bytes => exact h.2

theorem encode_eq (h : i.Ok) : i.encode = beBytes 4 i.bodyLen ++ i.body := by
  cases i with
  | keepalive => rfl
  | frame bytes =>
    have hlen : (UInt32.ofNat bytes.length).toNat = bytes.length := by
      have hle : bytes.length ≤ 65536 := h.2
      rw [UInt32.toNat_ofNat']
      omega
    rw [encode, relayToGateway, hlen]
    rfl

theorem length_encode (h : i.Ok) : i.encode.length = 4 + i.bodyLen := by
  rw [encode_eq h]
  cases i <;> simp [bodyLen, body]

end StreamItem

/-- The whole stream of a list of items. -/
def encodeAll (items : List StreamItem) : List UInt8 := items.flatMap StreamItem.encode

/-- The frames of a list of items, in order. -/
def framesOf (items : List StreamItem) : List (List UInt8) := items.filterMap StreamItem.frame?

namespace GatewayFrames

variable {g : GatewayFrames} {rest : List UInt8}
variable {tail : List UInt8} {g' : GatewayFrames}

/-- The unconsumed bytes begin with part of `i`: nothing can be returned yet. -/
def InsideOf (g : GatewayFrames) (todo : List StreamItem) : Prop :=
  ∀ i more, todo = i :: more → g.pending.length < 4 + i.bodyLen

theorem pending_advance {k : ℕ} {xs : List UInt8}
    (h : g.pending = xs ++ tail) (hk : xs.length = k) :
    (⟨g.buf, g.start + k⟩ : GatewayFrames).pending = tail := by
  have : (⟨g.buf, g.start + k⟩ : GatewayFrames).pending = g.pending.drop k := by
    simp [pending, List.drop_drop]
  rw [this, h, List.drop_append_of_le_length (by omega), List.drop_eq_nil_of_le (by omega),
    List.nil_append]

theorem length_pending (g : GatewayFrames) : g.pending.length = g.buf.length - g.start := by
  simp [pending]

theorem start_le_of_pending {k : ℕ} (hs : g.start ≤ g.buf.length) {xs : List UInt8}
    (h : g.pending = xs ++ tail) (hk : xs.length = k) : g.start + k ≤ g.buf.length := by
  have hlen := congrArg List.length h
  rw [length_pending, List.length_append] at hlen
  omega

/-- The length field, once the prefix has arrived. -/
theorem prefix_len {i : StreamItem} {more : List UInt8} (hi : i.Ok)
    (h : g.pending ++ rest = i.encode ++ more) (hp : ¬ g.pending.length < frameLenPrefix) :
    beNat (g.pending.take frameLenPrefix) = i.bodyLen := by
  have hp4 : frameLenPrefix ≤ g.pending.length := Nat.not_lt.mp hp
  have htake : g.pending.take frameLenPrefix = beBytes 4 i.bodyLen := by
    have hbe : (beBytes 4 i.bodyLen).length = frameLenPrefix := length_beBytes 4 _
    calc g.pending.take frameLenPrefix
        = (g.pending ++ rest).take frameLenPrefix := (List.take_append_of_le_length hp4).symm
      _ = (beBytes 4 i.bodyLen ++ (i.body ++ more)).take frameLenPrefix := by
          rw [h, StreamItem.encode_eq hi, List.append_assoc]
      _ = beBytes 4 i.bodyLen := List.take_left' hbe
  have hmax : i.bodyLen ≤ 65536 := StreamItem.bodyLen_le hi
  rw [htake, beNat_beBytes (by omega)]

/-- A partial item yields nothing and consumes nothing. -/
theorem nextFrame_incomplete {i : StreamItem} {more : List UInt8} (hs : g.start ≤ g.buf.length)
    (hi : i.Ok) (h : g.pending ++ rest = i.encode ++ more)
    (hpart : g.pending.length < 4 + i.bodyLen) : g.nextFrame = .ok (none, g) := by
  rw [nextFrame, dif_pos hs]
  by_cases hp : g.pending.length < frameLenPrefix
  · rw [dif_pos hp]
  · have hprefix : frameLenPrefix = 4 := rfl
    have hmax : i.bodyLen ≤ maxFrameLen := StreamItem.bodyLen_le hi
    rw [dif_neg hp]
    simp only [prefix_len hi h hp]
    -- a keepalive has no body, so a partial one has no prefix either
    rw [if_neg (by omega), if_neg (by omega), if_pos (by omega)]

theorem nextFrame_keepalive (hs : g.start ≤ g.buf.length)
    (h : g.pending = StreamItem.keepalive.encode ++ tail) :
    g.nextFrame = nextFrame ⟨g.buf, g.start + 4⟩ := by
  have hlen : ¬ g.pending.length < frameLenPrefix := by
    rw [h]
    simp [StreamItem.encode, frameLenPrefix]
  have hzero : beNat (g.pending.take frameLenPrefix) = 0 := by
    have hp : g.pending ++ [] = StreamItem.keepalive.encode ++ tail := by rw [List.append_nil, h]
    exact prefix_len (i := .keepalive) trivial hp hlen
  conv_lhs => rw [nextFrame, dif_pos hs, dif_neg hlen]
  simp only [hzero, if_true]
  rfl

theorem nextFrame_frame {bytes : List UInt8} (hs : g.start ≤ g.buf.length)
    (hok : (StreamItem.frame bytes).Ok) (h : g.pending = (StreamItem.frame bytes).encode ++ tail) :
    g.nextFrame = .ok (some bytes, ⟨g.buf, g.start + (4 + bytes.length)⟩) := by
  have henc : g.pending = beBytes 4 bytes.length ++ (bytes ++ tail) := by
    rw [h, StreamItem.encode_eq hok, List.append_assoc]
    rfl
  have hprefix : frameLenPrefix = 4 := rfl
  have hplen : g.pending.length = 4 + (bytes.length + tail.length) := by simp [henc]
  have hlen : ¬ g.pending.length < frameLenPrefix := by omega
  have hbody : beNat (g.pending.take frameLenPrefix) = bytes.length := by
    have hp : g.pending ++ [] = (StreamItem.frame bytes).encode ++ tail := by
      rw [List.append_nil, h]
    exact prefix_len hok hp hlen
  have hne : bytes.length ≠ 0 := fun h0 => hok.1 (List.eq_nil_of_length_eq_zero h0)
  have hmax : bytes.length ≤ maxFrameLen := hok.2
  have hslice : slice g.buf (g.start + frameLenPrefix) (g.start + frameLenPrefix + bytes.length)
      = .ok bytes := by
    have hdrop : g.buf.drop (g.start + frameLenPrefix) = bytes ++ tail :=
      pending_advance henc (length_beBytes 4 _)
    have hsub : g.start + frameLenPrefix + bytes.length - (g.start + frameLenPrefix)
        = bytes.length := by omega
    rw [length_pending] at hplen
    rw [slice, if_pos ⟨by omega, by omega⟩, List.drop_take, hdrop, hsub, List.take_left]
  rw [nextFrame, dif_pos hs, dif_neg hlen]
  simp only [hbody]
  rw [if_neg hne, if_neg (by omega), if_neg (by omega), hslice, hprefix, Nat.add_assoc]
  rfl

/-- Every frame returned moves `start` forward, so a drain ends. -/
theorem nextFrame_progress {frame : List UInt8} (h : g.nextFrame = .ok (some frame, g')) :
    g'.buf.length - g'.start < g.buf.length - g.start := by
  have hprefix : frameLenPrefix = 4 := rfl
  fun_induction nextFrame g with
  | case1 g hs hp => simp at h
  | case2 g hs hp len hzero ih =>
    have hrec := ih h
    rw [length_pending] at hp
    simp only at hrec
    omega
  | case3 g hs hp len hne hbig => simp at h
  | case4 g hs hp len hne hbig hshort => simp at h
  | case5 g hs hp len hne hbig hfull =>
    rw [length_pending] at hp hfull
    cases hslice : slice g.buf (g.start + frameLenPrefix) (g.start + frameLenPrefix + len) with
    | error e =>
      rw [hslice] at h
      simp [bind, Except.bind] at h
    | ok bytes =>
      rw [hslice] at h
      simp only [bind, Except.bind, Except.ok.injEq, Prod.mk.injEq] at h
      rw [← h.2]
      simp only
      omega
  | case6 g hs => simp at h

/-- `while let Some(frame) = frames.next_frame()?`, with the frames it hands
on. -/
def drain (g : GatewayFrames) : Except FrameError (List (List UInt8) × GatewayFrames) :=
  match _h : g.nextFrame with
  | .error e => .error e
  | .ok (none, g') => .ok ([], g')
  | .ok (some frame, g') => (drain g').map fun r => (frame :: r.1, r.2)
  termination_by g.buf.length - g.start
  decreasing_by exact nextFrame_progress _h

theorem drain_of_none (h : g.nextFrame = .ok (none, g')) : g.drain = .ok ([], g') := by
  rw [drain]
  split <;> simp_all

theorem drain_of_some {frame : List UInt8} (h : g.nextFrame = .ok (some frame, g')) :
    g.drain = (drain g').map fun r => (frame :: r.1, r.2) := by
  rw [drain]
  split <;> simp_all

theorem drain_congr (h : g.nextFrame = g'.nextFrame) : g.drain = g'.drain := by
  rw [drain, drain]
  split <;> split <;> simp_all

/-! ### Draining and feeding -/

/-- The parser stands at a cut of the stream: what it holds and what is still to
come make up the items `todo`, and the first of them is not complete yet. -/
structure AtCut (g : GatewayFrames) (todo : List StreamItem) (rest : List UInt8) : Prop where
  start_le : g.start ≤ g.buf.length
  stream : g.pending ++ rest = encodeAll todo
  inside : g.InsideOf todo

/-- What waits at a cut is less than one frame with its prefix. -/
theorem AtCut.pending_le {todo : List StreamItem} (h : g.AtCut todo rest)
    (hok : ∀ i ∈ todo, i.Ok) : g.pending.length ≤ maxFrameLen + 3 := by
  cases todo with
  | nil =>
    have hnil : g.pending = [] := (List.append_eq_nil_iff.mp h.stream).1
    simp [hnil]
  | cons i more =>
    have hlt := h.inside i more rfl
    have hmax : i.bodyLen ≤ maxFrameLen := StreamItem.bodyLen_le (hok i (by simp))
    omega

theorem AtCut.todo_nil {todo : List StreamItem} (h : g.AtCut todo [])
    (hok : ∀ i ∈ todo, i.Ok) : todo = [] := by
  cases todo with
  | nil => rfl
  | cons i more =>
    have hlt := h.inside i more rfl
    have hlen := congrArg List.length h.stream
    simp only [List.append_nil, encodeAll, List.flatMap_cons, List.length_append,
      StreamItem.length_encode (hok i (by simp))] at hlen
    omega

/-- **Draining consumes whole items**: from any point of the stream it returns
the frames of the items that are complete, and stops inside the next one. -/
theorem drain_spec {items : List StreamItem} (hok : ∀ i ∈ items, i.Ok)
    (hs : g.start ≤ g.buf.length) (h : g.pending ++ rest = encodeAll items) :
    ∃ done todo g', items = done ++ todo ∧ g.drain = .ok (framesOf done, g') ∧
      g'.buf = g.buf ∧ g'.AtCut todo rest := by
  -- induction on the items, the parser being at the start of the first
  induction items generalizing g with
  | nil =>
    have hnil : g.pending = [] := (List.append_eq_nil_iff.mp h).1
    have hnext : g.nextFrame = .ok (none, g) := by
      rw [nextFrame, dif_pos hs, dif_pos (by rw [hnil]; decide)]
    exact ⟨[], [], g, rfl, drain_of_none hnext, rfl, hs, h, fun _ _ h => by simp at h⟩
  | cons i more ih =>
    have hi : i.Ok := hok i (by simp)
    have hmore : ∀ j ∈ more, j.Ok := fun j hj => hok j (by simp [hj])
    have hstream : g.pending ++ rest = i.encode ++ encodeAll more := by
      simpa [encodeAll] using h
    by_cases hpart : g.pending.length < 4 + i.bodyLen
    · refine ⟨[], i :: more, g, rfl, drain_of_none (nextFrame_incomplete hs hi hstream hpart), rfl,
        hs, h, ?_⟩
      intro j _ hj
      rw [List.cons.injEq] at hj
      rw [← hj.1]
      exact hpart
    · have hle : i.encode.length ≤ g.pending.length := by
        rw [StreamItem.length_encode hi]
        omega
      obtain ⟨tail, htail, hrest⟩ : ∃ tail, g.pending = i.encode ++ tail ∧
          tail ++ rest = encodeAll more := by
        refine ⟨g.pending.drop i.encode.length, ?_, ?_⟩
        · have htake := congrArg (List.take i.encode.length) hstream
          rw [List.take_append_of_le_length hle, List.take_left] at htake
          conv_lhs => rw [← List.take_append_drop i.encode.length g.pending, htake]
        · have hdrop := congrArg (List.drop i.encode.length) hstream
          rwa [List.drop_append_of_le_length hle, List.drop_left] at hdrop
      set g₁ : GatewayFrames := ⟨g.buf, g.start + (4 + i.bodyLen)⟩ with hg₁
      have hpend₁ : g₁.pending = tail := pending_advance htail (StreamItem.length_encode hi)
      have hs₁ : g₁.start ≤ g₁.buf.length :=
        start_le_of_pending hs htail (StreamItem.length_encode hi)
      obtain ⟨done, todo, g', hsplit, hdrain, hbuf, hcut⟩ :=
        ih hmore hs₁ (by rw [hpend₁]; exact hrest)
      cases i with
      | keepalive =>
        refine ⟨.keepalive :: done, todo, g', by rw [hsplit]; rfl, ?_, hbuf, hcut⟩
        rw [drain_congr (nextFrame_keepalive hs htail)]
        exact hdrain
      | frame bytes =>
        refine ⟨.frame bytes :: done, todo, g', by rw [hsplit]; rfl, ?_, hbuf, hcut⟩
        have hnext : g.nextFrame = .ok (some bytes, g₁) := nextFrame_frame hs hi htail
        rw [drain_of_some hnext, hdrain]
        rfl

theorem push_spec (hs : g.start ≤ g.buf.length) (bytes : List UInt8) :
    ∃ g', g.push bytes = .ok g' ∧ g'.start ≤ g'.buf.length ∧
      g'.pending = g.pending ++ bytes ∧
      g'.buf.length ≤ 2 * g.pending.length + bytes.length := by
  have hlen := g.length_pending
  by_cases hhalf : g.buf.length - g.start ≤ g.start
  · refine ⟨⟨g.buf.drop g.start ++ bytes, 0⟩, ?_, Nat.zero_le _, rfl, ?_⟩
    · rw [push, if_pos hs, if_pos hhalf]
    · simp only [List.length_append, List.length_drop]
      omega
  · refine ⟨⟨g.buf ++ bytes, g.start⟩, ?_, ?_, List.drop_append_of_le_length hs, ?_⟩
    · rw [push, if_pos hs, if_neg hhalf]
    · simp only [List.length_append]
      omega
    · simp only [List.length_append]
      omega

/-- Pushes and drains one chunk after another, as `drain_burst` does with what it
receives. -/
def feed (g : GatewayFrames) : List (List UInt8) →
    Except FrameError (List (List UInt8) × GatewayFrames)
  | [] => .ok ([], g)
  | chunk :: chunks => do
    let g ← g.push chunk
    let r ← g.drain
    let r' ← feed r.2 chunks
    .ok (r.1 ++ r'.1, r'.2)

/-- **Feeding keeps the parser at a cut**: any chunks of the stream, pushed and
drained in order, yield the frames of the items they complete. -/
theorem feed_spec {items : List StreamItem} {chunks : List (List UInt8)} {c : ℕ}
    (hok : ∀ i ∈ items, i.Ok) (hc : ∀ chunk ∈ chunks, chunk.length ≤ c)
    (hcut : g.AtCut items (chunks.flatten ++ rest))
    (hbuf : g.buf.length ≤ 2 * (maxFrameLen + 3) + c) :
    ∃ done todo g', items = done ++ todo ∧ g.feed chunks = .ok (framesOf done, g') ∧
      g'.AtCut todo rest ∧ g'.buf.length ≤ 2 * (maxFrameLen + 3) + c := by
  induction chunks generalizing g items with
  | nil => exact ⟨[], items, g, rfl, rfl, by simpa using hcut, hbuf⟩
  | cons chunk chunks ih =>
    obtain ⟨g₁, hpush, hs₁, hpend₁, hlen₁⟩ := push_spec hcut.start_le chunk
    have hstream : g₁.pending ++ (chunks.flatten ++ rest) = encodeAll items := by
      rw [hpend₁, ← hcut.stream]
      simp
    obtain ⟨done, todo, g₂, hsplit, hdrain, hbuf₂, hcut₂⟩ := drain_spec hok hs₁ hstream
    have htodo : ∀ i ∈ todo, i.Ok := fun i hi => hok i (by simp [hsplit, hi])
    have hlen₂ : g₂.buf.length ≤ 2 * (maxFrameLen + 3) + c := by
      have hpend := hcut.pending_le hok
      have hchunk := hc chunk (by simp)
      rw [hbuf₂]
      omega
    obtain ⟨done', todo', g', hsplit', hfeed, hcut', hlen'⟩ :=
      ih htodo (fun chunk' hmem => hc chunk' (by simp [hmem])) hcut₂ hlen₂
    refine ⟨done ++ done', todo', g', by rw [hsplit, hsplit', List.append_assoc], ?_, hcut', hlen'⟩
    simp only [feed, hpush, hdrain, hfeed, bind, Except.bind, framesOf, List.filterMap_append]

theorem atCut_empty (items : List StreamItem) : AtCut {} items (encodeAll items) :=
  ⟨Nat.zero_le _, rfl, fun i _ _ => by
    simp only [pending, List.drop_nil, List.length_nil]
    omega⟩

end GatewayFrames

open GatewayFrames

/-- **The gateway framing round-trips under every chunking**: however the stream
of a list of frames and keepalives is cut, feeding the chunks returns exactly the
frames, with no error and no index outside the buffer.  After every drain the
buffer holds at most two partial frames and the last chunk; `drain_burst`
receives at most `maxFrameLen` bytes at a time. -/
theorem gateway_frames_round_trip (items : List StreamItem) (hok : ∀ i ∈ items, i.Ok)
    (chunks : List (List UInt8)) (hcut : chunks.flatten = encodeAll items) (c : ℕ)
    (hc : ∀ chunk ∈ chunks, chunk.length ≤ c) :
    (∃ g, feed {} chunks = .ok (framesOf items, g)) ∧
      ∀ fed left, chunks = fed ++ left → ∃ frames g, feed {} fed = .ok (frames, g) ∧
        g.buf.length ≤ 2 * (maxFrameLen + 3) + c := by
  refine ⟨?_, ?_⟩
  · have hstart : AtCut {} items (chunks.flatten ++ []) := by
      rw [List.append_nil, hcut]
      exact atCut_empty items
    obtain ⟨done, todo, g, hsplit, hfeed, hend, -⟩ := feed_spec hok hc hstart (Nat.zero_le _)
    have hnil : todo = [] := hend.todo_nil fun i hi => hok i (by simp [hsplit, hi])
    rw [hnil, List.append_nil] at hsplit
    exact ⟨g, by rw [hsplit]; exact hfeed⟩
  · intro fed left hsplit
    have hstart : AtCut {} items (fed.flatten ++ left.flatten) := by
      rw [← List.flatten_append, ← hsplit, hcut]
      exact atCut_empty items
    obtain ⟨done, todo, g, -, hfeed, -, hlen⟩ := feed_spec hok
      (fun chunk hmem => hc chunk (by simp [hsplit, hmem])) hstart (Nat.zero_le _)
    exact ⟨_, g, hfeed, hlen⟩

theorem gateway_frames_round_trip_sample :
    (∀ i ∈ [StreamItem.frame [7, 8], .keepalive, .frame [9]], i.Ok) ∧
      ∃ g, feed {} [[0, 0], [0, 2, 7], [8, 0, 0, 0, 0, 0, 0], [0, 1, 9]] = .ok ([[7, 8], [9]], g) :=
  have hok : ∀ i ∈ [StreamItem.frame [7, 8], .keepalive, .frame [9]], i.Ok := by
    simp [StreamItem.Ok, maxFrameLen]
  ⟨hok, (gateway_frames_round_trip [.frame [7, 8], .keepalive, .frame [9]] hok
    [[0, 0], [0, 2, 7], [8, 0, 0, 0, 0, 0, 0], [0, 1, 9]] (by decide) 7 (by decide)).1⟩

/-- A stream handed over in one chunk stays in the buffer whole until the next
push, so no bound holds for chunks of every length. -/
theorem gateway_buffer_unbounded :
    ¬ ∃ bound, ∀ items : List StreamItem, (∀ i ∈ items, i.Ok) →
      ∀ chunks : List (List UInt8), chunks.flatten = encodeAll items →
        ∀ fed left, chunks = fed ++ left →
          ∀ frames g, feed {} fed = .ok (frames, g) → g.buf.length < bound := by
  rintro ⟨bound, h⟩
  set items := List.replicate bound (StreamItem.frame [0]) with hitems
  have hok : ∀ i ∈ items, i.Ok := by
    intro i hi
    rw [List.eq_of_mem_replicate hi]
    exact ⟨by simp, by decide⟩
  have hlen : (encodeAll items).length = 5 * bound := by
    have henc : (StreamItem.frame [0]).encode.length = 5 := rfl
    simp only [encodeAll, hitems, List.length_flatMap, List.map_replicate, henc,
      List.sum_replicate_nat]
    omega
  -- one push of the whole stream, then one drain
  have hpush : push {} (encodeAll items) = .ok ⟨encodeAll items, 0⟩ := rfl
  have hpend : (⟨encodeAll items, 0⟩ : GatewayFrames).pending ++ [] = encodeAll items := by
    simp [pending]
  obtain ⟨done, todo, g, -, hdrain, hbuf, -⟩ := drain_spec hok (Nat.zero_le _) hpend
  have hfeed : feed {} [encodeAll items] = .ok (framesOf done ++ [], g) := by
    simp only [feed, hpush, hdrain, bind, Except.bind]
  have hlt := h items hok [encodeAll items] (by simp) [encodeAll items] [] (by simp) _ g hfeed
  rw [hbuf, hlen] at hlt
  omega
