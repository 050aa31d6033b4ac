/-
The tokens a terminal behind the console filter receives.

Whatever a guest writes, what the filter emits is a concatenation of complete
tokens (`Token`): text, C0 controls, UTF-8 characters and the allowed escape
sequences.

* `Inv` — what the filter holds back in each state;
* `push_step` — one byte keeps the invariant and emits whole tokens;
* `filter_step` — so does every call.
-/
import HviVmm.ConsoleFilter

namespace ConsoleFilter

/-! ### UTF-8 -/

theorem fromUtf8_eq_some {bytes : List UInt8} {cs : List Char} :
    fromUtf8 bytes = some cs ↔ bytes = cs.flatMap String.utf8EncodeChar := by
  unfold fromUtf8
  constructor
  · intro h
    obtain ⟨a, ha, rfl⟩ := Option.map_eq_some_iff.mp h
    have hs : bytes.toByteArray.utf8Decode?.isSome = true := by rw [ha]; rfl
    have henc := @ByteArray.utf8Encode_get_utf8Decode? bytes.toByteArray hs
    simp only [ha, Option.get_some] at henc
    have hdata := congrArg (fun b : ByteArray => b.data.toList) henc
    simpa [List.utf8Encode] using hdata.symm
  · intro h
    have henc : bytes.toByteArray = cs.utf8Encode := by rw [h]; rfl
    rw [henc, List.utf8Decode?_utf8Encode]
    rfl

/-! ### Tokens -/

/-- What the terminal may receive. -/
inductive Token : List UInt8 → Prop
  | printable (b : UInt8) : 0x20 ≤ b → b ≤ 0x7f → Token [b]
  | control (b : UInt8) : b ≤ 0x1f → b ≠ esc → b ≠ enq → Token [b]
  /-- A scalar value that is neither ASCII nor a C1 control. -/
  | scalar (c : Char) : 0xa0 ≤ c.toNat → Token (String.utf8EncodeChar c)
  | escape (b : UInt8) : b ∈ [0x37, 0x38, 0x44, 0x45, 0x4d, 0x3d, 0x3e] → Token [esc, b]
  | charset (slot b : UInt8) : slot ∈ [0x28, 0x29, 0x2a, 0x2b] → b ∈ [0x30, 0x41, 0x42] →
      Token [esc, slot, b]
  | csi (body : List UInt8) : csiAllowed body = true → Token (esc :: 0x5b :: body)

/-- A control sequence of at most `maxSeq + 1` bytes; every other token is
shorter. -/
def CsiShort (t : List UInt8) : Prop := ∀ body, t = esc :: 0x5b :: body → t.length ≤ maxSeq + 1

/-- A concatenation of complete tokens. -/
def Clean (out : List UInt8) : Prop :=
  ∃ ts : List (List UInt8), (∀ t ∈ ts, Token t ∧ CsiShort t) ∧ out = ts.flatten

theorem csiShort_of_length {t : List UInt8} (h : t.length ≤ 4) : CsiShort t := by
  intro _ _
  have hmax : maxSeq = 128 := rfl
  omega

theorem clean_nil : Clean [] := ⟨[], by simp, rfl⟩

theorem clean_token {t : List UInt8} (ht : Token t) (hs : CsiShort t) : Clean t :=
  ⟨[t], by simpa using ⟨ht, hs⟩, by simp⟩

theorem Clean.append {a b : List UInt8} (ha : Clean a) (hb : Clean b) : Clean (a ++ b) := by
  obtain ⟨ts, hts, rfl⟩ := ha
  obtain ⟨us, hus, rfl⟩ := hb
  refine ⟨ts ++ us, ?_, by simp⟩
  intro t ht
  rcases List.mem_append.mp ht with h | h
  · exact hts t h
  · exact hus t h

theorem length_utf8EncodeChar_le (c : Char) : (String.utf8EncodeChar c).length ≤ 4 := by
  rw [String.length_utf8EncodeChar]
  exact Char.utf8Size_le_four c

theorem clean_scalar {c : Char} (h : 0xa0 ≤ c.toNat) : Clean (String.utf8EncodeChar c) :=
  clean_token (.scalar c h) (csiShort_of_length (length_utf8EncodeChar_le c))

theorem clean_scalars {cs : List Char} (h : ∀ c ∈ cs, 0xa0 ≤ c.toNat) :
    Clean (cs.flatMap String.utf8EncodeChar) := by
  induction cs with
  | nil => exact clean_nil
  | cons c cs ih =>
    rw [List.flatMap_cons]
    exact (clean_scalar (h c (by simp))).append (ih fun d hd => h d (by simp [hd]))

theorem clean_replacement : Clean replacement := by
  have h : replacement = String.utf8EncodeChar (Char.ofNat 0xfffd) := by decide
  rw [h]
  exact clean_scalar (by decide)

theorem clean_execute {b : UInt8} (h : b ≤ 0x1f) (hesc : b ≠ esc) : Clean (execute b) := by
  unfold execute
  split
  · next henq => exact clean_token (.control b h hesc henq) (csiShort_of_length (by simp))
  · exact clean_nil

/-- The encoding of an ASCII character is one byte below 0x80. -/
theorem utf8EncodeChar_ascii {c : Char} (h : c.toNat < 0x80) :
    String.utf8EncodeChar c = [UInt8.ofNat c.toNat] := by
  unfold String.utf8EncodeChar
  exact if_pos (Nat.le_of_lt_succ h)

/-! ### What a filter emits -/

/-- The invariant of a filter in use: what it holds back in each state.  A
character is collected only in the ground state. -/
structure Inv (f : Filter) : Prop where
  utf8 : f.utf8Want ≠ 0 → f.state = .ground ∧ ∀ b ∈ f.utf8, 0x80 ≤ b
  escape : f.state = .escape → f.seq = [esc]
  inter : f.state = .escapeIntermediate → ∃ slot rest, f.seq = esc :: slot :: rest
  csi : f.state = .csi → ∃ body, f.seq = esc :: 0x5b :: body ∧ f.seq.length ≤ maxSeq

/-- The result of a step: a filter that keeps the invariant, and whole tokens. -/
def StepOk (r : Filter × List UInt8) : Prop := Inv r.1 ∧ Clean r.2

theorem inv_new : Inv {} := ⟨by simp, by simp, by simp, by simp⟩

section Steps

variable {f : Filter} {b : UInt8}

theorem inv_toGround (hw : f.utf8Want = 0) : Inv f.toGround :=
  ⟨fun h => absurd hw h, by simp [Filter.toGround], by simp [Filter.toGround],
    by simp [Filter.toGround]⟩

theorem inv_startEscape (hw : f.utf8Want = 0) : Inv f.startEscape :=
  ⟨fun h => absurd hw h, fun _ => rfl, by simp [Filter.startEscape],
    by simp [Filter.startEscape]⟩

theorem inv_controlString (hw : f.utf8Want = 0) : Inv { f with state := .controlString } :=
  ⟨fun h => absurd hw h, by simp, by simp, by simp⟩

theorem inv_hold (hi : Inv f) (hw : f.utf8Want = 0)
    (hs : f.state = .escapeIntermediate ∨ f.state = .csi) : Inv (f.hold b) := by
  unfold Filter.hold
  split
  · next hlen =>
    refine ⟨fun h => absurd hw h, fun he => ?_, fun he => ?_, fun hc => ?_⟩
    · rcases hs with h | h <;> rw [h] at he <;> simp at he
    · obtain ⟨slot, rest, hseq⟩ := hi.inter he
      exact ⟨slot, rest ++ [b], by rw [hseq]; rfl⟩
    · obtain ⟨body, hseq, -⟩ := hi.csi hc
      refine ⟨body ++ [b], by rw [hseq]; rfl, ?_⟩
      simp only [List.length_append, List.length_singleton]
      omega
  · split
    · exact ⟨fun h => absurd hw h, by simp, by simp, by simp⟩
    · exact hi

theorem startUtf8_step (hi : Inv f) (hg : f.state = .ground) (hb : ¬ b ≤ 0x7f) :
    StepOk (f.startUtf8 b) := by
  have hstart : ∀ want, Inv { f with utf8 := [b], utf8Want := want } := by
    intro want
    refine ⟨fun _ => ⟨hg, ?_⟩, by simp [hg], by simp [hg], by simp [hg]⟩
    intro x hx
    rw [List.mem_singleton.mp hx]
    rw [UInt8.le_iff_toNat_le] at hb ⊢
    simp at hb ⊢
    omega
  unfold Filter.startUtf8
  split
  · exact ⟨hstart 2, clean_nil⟩
  · split
    · exact ⟨hstart 3, clean_nil⟩
    · split
      · exact ⟨hstart 4, clean_nil⟩
      · exact ⟨hi, clean_replacement⟩

theorem ground_step (hi : Inv f) (hw : f.utf8Want = 0) (hg : f.state = .ground) :
    StepOk (f.ground b) := by
  unfold Filter.ground
  split
  · exact ⟨inv_startEscape hw, clean_nil⟩
  · next hesc =>
    split
    · next hc0 => exact ⟨hi, clean_execute hc0 hesc⟩
    · next hc0 =>
      split
      · next hascii =>
        have hlow : 0x20 ≤ b := by
          rw [UInt8.le_iff_toNat_le] at hc0 ⊢
          simp at hc0 ⊢
          omega
        exact ⟨hi, clean_token (.printable b hlow hascii) (csiShort_of_length (by simp))⟩
      · next hascii => exact startUtf8_step hi hg hascii

theorem ground_step_toGround (hw : f.utf8Want = 0) : StepOk (f.toGround.ground b) :=
  ground_step (inv_toGround hw) hw rfl

theorem escape_step (hi : Inv f) (hw : f.utf8Want = 0) (hs : f.state = .escape) :
    StepOk (f.escape b) := by
  have hseq := hi.escape hs
  have hmax : maxSeq = 128 := rfl
  unfold Filter.escape
  split
  · exact ⟨inv_startEscape hw, clean_nil⟩
  · next hesc =>
    split
    · exact ⟨inv_toGround hw, clean_nil⟩
    split
    · next hc0 => exact ⟨hi, clean_execute hc0 hesc⟩
    split
    · next hb =>
      refine ⟨⟨fun h => absurd hw h, by simp, by simp, fun _ => ⟨[], ?_, ?_⟩⟩, clean_nil⟩
      · simp [hseq, hb]
      · simp [hseq, hmax]
    split
    · exact ⟨inv_controlString hw, clean_nil⟩
    split
    · refine ⟨⟨fun h => absurd hw h, by simp, fun _ => ⟨b, [], ?_⟩, by simp⟩, clean_nil⟩
      simp [hseq]
    split
    · next hfin =>
      refine ⟨inv_toGround hw, clean_token (.escape b ?_) (csiShort_of_length (by simp))⟩
      simpa [Filter.escapeFinal, or_assoc] using hfin
    split
    · exact ⟨inv_toGround hw, clean_nil⟩
    · exact ground_step_toGround hw

theorem designates_token (h : f.designates b = true) (hi : Inv f)
    (hs : f.state = .escapeIntermediate) : Clean (f.seq ++ [b]) := by
  obtain ⟨slot, rest, hseq⟩ := hi.inter hs
  rw [Filter.designates, hseq] at h
  cases rest with
  | cons x xs => simp at h
  | nil =>
    simp only [Bool.and_eq_true] at h
    rw [hseq]
    refine clean_token (.charset slot b ?_ ?_) (csiShort_of_length (by simp))
    · have hslot := h.1
      simp only [Filter.isCharsetSlot, inRange, Bool.and_eq_true, decide_eq_true_eq,
        UInt8.le_iff_toNat_le] at hslot
      simp only [List.mem_cons, List.not_mem_nil, or_false, ← UInt8.toNat_inj]
      simp at hslot ⊢
      omega
    · simpa [Filter.isCharset, or_assoc] using h.2

theorem escapeIntermediate_step (hi : Inv f) (hw : f.utf8Want = 0)
    (hs : f.state = .escapeIntermediate) : StepOk (f.escapeIntermediate b) := by
  unfold Filter.escapeIntermediate
  split
  · exact ⟨inv_startEscape hw, clean_nil⟩
  · next hesc =>
    split
    · exact ⟨inv_toGround hw, clean_nil⟩
    split
    · next hc0 => exact ⟨hi, clean_execute hc0 hesc⟩
    split
    · exact ⟨inv_hold hi hw (.inl hs), clean_nil⟩
    split
    · refine ⟨inv_toGround hw, ?_⟩
      by_cases hd : f.designates b = true
      · rw [if_pos hd]
        exact designates_token hd hi hs
      · rw [if_neg hd]
        exact clean_nil
    split
    · exact ⟨hi, clean_nil⟩
    · exact ground_step_toGround hw

theorem csi_step (hi : Inv f) (hw : f.utf8Want = 0) (hs : f.state = .csi) : StepOk (f.csi b) := by
  unfold Filter.csi
  split
  · exact ⟨inv_startEscape hw, clean_nil⟩
  · next hesc =>
    split
    · exact ⟨inv_toGround hw, clean_nil⟩
    split
    · next hc0 => exact ⟨hi, clean_execute hc0 hesc⟩
    split
    · exact ⟨inv_hold hi hw (.inr hs), clean_nil⟩
    split
    · obtain ⟨body, hseq, hlen⟩ := hi.csi hs
      refine ⟨inv_toGround hw, ?_⟩
      by_cases ha : csiAllowed ((f.seq ++ [b]).drop 2) = true
      · simp only [if_pos ha]
        rw [hseq] at ha hlen ⊢
        refine clean_token (.csi (body ++ [b]) ha) fun _ _ => ?_
        simp only [List.length_append, List.length_singleton]
        omega
      · simp only [if_neg ha]
        exact clean_nil
    split
    · exact ⟨hi, clean_nil⟩
    · exact ground_step_toGround hw

theorem csiIgnore_step (hi : Inv f) (hw : f.utf8Want = 0) : StepOk (f.csiIgnore b) := by
  unfold Filter.csiIgnore
  split
  · exact ⟨inv_startEscape hw, clean_nil⟩
  · next hesc =>
    split
    · exact ⟨inv_toGround hw, clean_nil⟩
    split
    · next hc0 => exact ⟨hi, clean_execute hc0 hesc⟩
    split
    · exact ⟨hi, clean_nil⟩
    · exact ground_step_toGround hw

theorem controlString_step (hi : Inv f) (hw : f.utf8Want = 0) : Inv (f.controlString b) := by
  unfold Filter.controlString
  split
  · exact inv_startEscape hw
  · split
    · exact inv_toGround hw
    · exact hi

theorem dispatch_step (hi : Inv f) (hw : f.utf8Want = 0) : StepOk (f.dispatch b) := by
  unfold Filter.dispatch
  split
  · next hs => exact ground_step hi hw hs
  · next hs => exact escape_step hi hw hs
  · next hs => exact escapeIntermediate_step hi hw hs
  · next hs => exact csi_step hi hw hs
  · exact csiIgnore_step hi hw
  · exact ⟨controlString_step hi hw, clean_nil⟩

/-- A collected character is emitted whole: none of its bytes is ASCII, so each
character it decodes to is past the C1 controls. -/
theorem finishUtf8_step (hg : f.state = .ground) (hu : ∀ x ∈ f.utf8, 0x80 ≤ x) :
    StepOk f.finishUtf8 := by
  refine ⟨⟨fun h => absurd rfl h, by simp [Filter.finishUtf8, hg],
    by simp [Filter.finishUtf8, hg], by simp [Filter.finishUtf8, hg]⟩, ?_⟩
  unfold Filter.finishUtf8
  simp only
  cases hdec : fromUtf8 f.utf8 with
  | none => exact clean_replacement
  | some cs =>
    simp only
    split
    · next hc1 =>
      have henc := fromUtf8_eq_some.mp hdec
      rw [henc]
      refine clean_scalars fun c hc => ?_
      have hnot : ¬ c.toNat < 0x80 := by
        intro hlt
        have hmem : UInt8.ofNat c.toNat ∈ f.utf8 := by
          rw [henc, List.mem_flatMap]
          exact ⟨c, hc, by simp [utf8EncodeChar_ascii hlt]⟩
        have := UInt8.le_iff_toNat_le.mp (hu _ hmem)
        simp at this
        omega
      have hc1' := List.all_eq_true.mp hc1 c hc
      simp only [isC1, Bool.not_eq_true', Bool.and_eq_false_iff, decide_eq_false_iff_not] at hc1'
      omega
    · exact clean_nil

/-- **One byte**: the invariant is kept and whole tokens come out. -/
theorem push_step (hi : Inv f) : StepOk (f.push b) := by
  unfold Filter.push
  split
  · next hw =>
    obtain ⟨hg, hu⟩ := hi.utf8 hw
    split
    · next hcont =>
      have hu' : ∀ x ∈ f.utf8 ++ [b], 0x80 ≤ x := by
        intro x hx
        rcases List.mem_append.mp hx with h | h
        · exact hu x h
        · simp only [inRange, Bool.and_eq_true, decide_eq_true_eq] at hcont
          rw [List.mem_singleton.mp h]
          exact hcont.1
      simp only
      split
      · exact finishUtf8_step hg hu'
      · exact ⟨⟨fun _ => ⟨hg, hu'⟩, by simp [hg], by simp [hg], by simp [hg]⟩, clean_nil⟩
    · have hcut : Inv { f with utf8Want := 0 } :=
        ⟨fun h => absurd rfl h, by simp [hg], by simp [hg], by simp [hg]⟩
      have hd := dispatch_step (b := b) hcut rfl
      exact ⟨hd.1, clean_replacement.append hd.2⟩
  · next hw => exact dispatch_step hi (not_not.mp hw)

end Steps

theorem filter_step {f : Filter} (hi : Inv f) (input : List UInt8) : StepOk (f.filter input) := by
  induction input generalizing f with
  | nil => exact ⟨hi, clean_nil⟩
  | cons b rest ih =>
    have hb := push_step (b := b) hi
    have hrest := ih hb.1
    exact ⟨hrest.1, hb.2.append hrest.2⟩

end ConsoleFilter
