/-
The language of the console filter.

However the guest's output is cut into calls, the terminal receives whole tokens.
Conversely the filter passes a concatenation of tokens unchanged, as long as no
control sequence is longer than the filter holds back.

* `filter_token` — a token read between tokens is emitted as it is, and the
  filter is between tokens again;
* `console_filter_language` — both directions for every cut, and idempotence.
-/
import HviVmm.ConsoleTokens

namespace ConsoleFilter

variable {f : Filter} {b : UInt8} {n : ℕ}

/-! ### What a filter passes -/

theorem filter_append (f : Filter) (a b : List UInt8) :
    f.filter (a ++ b) = (((f.filter a).1.filter b).1, (f.filter a).2 ++
    ((f.filter a).1.filter b).2) := by
  induction a generalizing f with
  | nil => rfl
  | cons x xs ih => simp only [List.cons_append, Filter.filter, ih, List.append_assoc]

/-- How the output is cut into calls does not matter. -/
theorem filterAll_eq (f : Filter) (chunks : List (List UInt8)) :
    f.filterAll chunks = f.filter chunks.flatten := by
  induction chunks generalizing f with
  | nil => rfl
  | cons c cs ih => simp only [Filter.filterAll, List.flatten_cons, filter_append, ih]

/-- Between tokens: outside every sequence and every character. -/
structure Between (f : Filter) : Prop where
  ground : f.state = .ground
  whole : f.utf8Want = 0

/-- `t` is emitted unchanged by every filter between tokens, which it leaves
between tokens. -/
def Passes (t : List UInt8) : Prop :=
  ∀ f : Filter, Between f → Between (f.filter t).1 ∧ (f.filter t).2 = t

theorem push_between (hf : Between f) (b : UInt8) : f.push b = f.ground b := by
  simp [Filter.push, Filter.dispatch, hf.ground, hf.whole]

theorem filter_esc (hf : Between f) (rest : List UInt8) :
    f.filter (esc :: rest) = f.startEscape.filter rest := by
  simp [Filter.filter, push_between hf, Filter.ground]

theorem passes_printable (hlo : 0x20 ≤ b) (hhi : b ≤ 0x7f) : Passes [b] := by
  intro f hf
  have hesc : b ≠ esc := by
    rintro rfl
    exact absurd hlo (by decide)
  have hc0 : ¬ b ≤ 0x1f := by
    rw [UInt8.le_iff_toNat_le] at hlo ⊢
    simp at hlo ⊢
    omega
  have hpush : f.push b = (f, [b]) := by
    rw [push_between hf, Filter.ground, if_neg hesc, if_neg hc0, if_pos hhi]
  simp [Filter.filter, hpush, hf]

theorem passes_control (hc0 : b ≤ 0x1f) (hesc : b ≠ esc) (henq : b ≠ enq) : Passes [b] := by
  intro f hf
  have hpush : f.push b = (f, [b]) := by
    rw [push_between hf, Filter.ground, if_neg hesc, if_pos hc0, execute, if_pos henq]
  simp [Filter.filter, hpush, hf]

theorem passes_escape (hb : b ∈ [0x37, 0x38, 0x44, 0x45, 0x4d, 0x3d, 0x3e]) : Passes [esc, b] := by
  intro f hf
  have hpush : f.startEscape.push b = (f.startEscape.toGround, [esc, b]) := by
    simp only [Filter.push, Filter.startEscape, hf.whole, Filter.dispatch, ne_eq, not_true_eq_false,
      if_false]
    simp only [List.mem_cons, List.not_mem_nil, or_false] at hb
    rcases hb with rfl | rfl | rfl | rfl | rfl | rfl | rfl <;> rfl
  rw [filter_esc hf]
  simp only [Filter.filter, hpush, List.append_nil, and_true]
  exact ⟨rfl, hf.whole⟩

theorem passes_charset {slot : UInt8} (hslot : slot ∈ [0x28, 0x29, 0x2a, 0x2b])
    (hb : b ∈ [0x30, 0x41, 0x42]) : Passes [esc, slot, b] := by
  intro f hf
  have hpush : f.startEscape.push slot =
      ({ f with seq := [esc, slot], state := .escapeIntermediate }, []) := by
    simp only [Filter.push, Filter.startEscape, hf.whole, Filter.dispatch, ne_eq, not_true_eq_false,
      if_false]
    simp only [List.mem_cons, List.not_mem_nil, or_false] at hslot
    rcases hslot with rfl | rfl | rfl | rfl <;> rfl
  have hlast : ({ f with seq := [esc, slot], state := .escapeIntermediate } : Filter).push b =
      ({ f with seq := [esc, slot], state := .ground }, [esc, slot, b]) := by
    simp only [Filter.push, hf.whole, Filter.dispatch, ne_eq, not_true_eq_false, if_false]
    simp only [List.mem_cons, List.not_mem_nil, or_false] at hslot hb
    rcases hslot with rfl | rfl | rfl | rfl <;> rcases hb with rfl | rfl | rfl <;> rfl
  rw [filter_esc hf]
  simp only [Filter.filter, hpush, hlast, List.append_nil, List.nil_append, and_true]
  exact ⟨rfl, hf.whole⟩

theorem inRange_ofNat {lo hi : UInt8} (hn : n < 256) (hlo : lo.toNat ≤ n) (hhi : n ≤ hi.toNat) :
    inRange lo hi (UInt8.ofNat n) = true := by
  simp only [inRange, Bool.and_eq_true, decide_eq_true_eq, UInt8.le_iff_toNat_le,
    UInt8.toNat_ofNat', Nat.mod_eq_of_lt hn]
  exact ⟨hlo, hhi⟩

theorem inRange_ofNat_above {lo hi : UInt8} (hn : n < 256) (hhi : hi.toNat < n) :
    inRange lo hi (UInt8.ofNat n) = false := by
  simp only [inRange, Bool.and_eq_false_iff, decide_eq_false_iff_not, UInt8.le_iff_toNat_le,
    UInt8.toNat_ofNat', Nat.mod_eq_of_lt hn]
  exact .inr (by omega)

theorem inRange_continuation (n : ℕ) : inRange 0x80 0xbf (UInt8.ofNat (n % 64 + 128)) = true :=
  inRange_ofNat (by omega) (by simp) (by simp; omega)

theorem ofNat_not_ascii (hn : n < 256) (h : 128 ≤ n) : ¬ UInt8.ofNat n ≤ 0x7f := by
  rw [UInt8.le_iff_toNat_le, UInt8.toNat_ofNat', Nat.mod_eq_of_lt hn]
  simp
  omega

theorem toNat_lt_of_valid (c : Char) : c.toNat < 0x110000 := by
  rcases c.valid with h | h
  · exact Nat.lt_trans h (by decide)
  · exact h.2

/-- The encoding of a character past ASCII: a lead byte that says how many bytes
follow, and that many continuation bytes. -/
theorem utf8EncodeChar_wide {c : Char} (h : 0x80 ≤ c.toNat) :
    ∃ lead tail, String.utf8EncodeChar c = lead :: tail ∧ tail ≠ [] ∧ ¬ lead ≤ 0x7f ∧
      (∀ b ∈ tail, inRange 0x80 0xbf b = true) ∧
      ∀ f : Filter, f.startUtf8 lead =
        ({ f with utf8 := [lead], utf8Want := tail.length + 1 }, []) := by
  have hvalid := toNat_lt_of_valid c
  unfold String.utf8EncodeChar
  change 128 ≤ c.val.toNat at h
  change c.val.toNat < 0x110000 at hvalid
  generalize c.val.toNat = v at h hvalid ⊢
  simp only
  rw [if_neg (by omega)]
  split
  · refine ⟨_, _, rfl, by simp, ofNat_not_ascii (by omega) (by omega), ?_, fun f => ?_⟩
    · simp only [List.forall_mem_singleton, inRange_continuation]
    · rw [Filter.startUtf8, inRange_ofNat (by omega) (by simp; omega) (by simp; omega)]
      rfl
  · split
    · refine ⟨_, _, rfl, by simp, ofNat_not_ascii (by omega) (by omega), ?_, fun f => ?_⟩
      · simp [inRange_continuation, -UInt8.ofNat_add]
      · rw [Filter.startUtf8, inRange_ofNat_above (by omega) (by simp),
          inRange_ofNat (by omega) (by simp) (by simp; omega)]
        rfl
    · refine ⟨_, _, rfl, by simp, ofNat_not_ascii (by omega) (by omega), ?_, fun f => ?_⟩
      · simp [inRange_continuation, -UInt8.ofNat_add]
      · rw [Filter.startUtf8, inRange_ofNat_above (by omega) (by simp),
          inRange_ofNat_above (by omega) (by simp),
          inRange_ofNat (by omega) (by simp) (by simp; omega)]
        rfl

theorem filter_collect {tail : List UInt8} (hne : tail ≠ [])
    (hw : f.utf8Want = f.utf8.length + tail.length) (hc : ∀ b ∈ tail, inRange 0x80 0xbf b = true) :
    f.filter tail = { f with utf8 := f.utf8 ++ tail }.finishUtf8 := by
  induction tail generalizing f with
  | nil => exact absurd rfl hne
  | cons b rest ih =>
    rw [List.length_cons] at hw
    have hpush : f.push b = if rest = [] then { f with utf8 := f.utf8 ++ [b] }.finishUtf8
        else ({ f with utf8 := f.utf8 ++ [b] }, []) := by
      rw [Filter.push, if_pos (by omega), if_pos (hc b (by simp))]
      simp only [List.length_append, List.length_singleton]
      refine if_congr ?_ rfl rfl
      rw [hw, ← List.length_eq_zero_iff]
      omega
    by_cases hr : rest = []
    · subst hr
      simp [Filter.filter, hpush]
    · rw [if_neg hr] at hpush
      simp only [Filter.filter, hpush, List.nil_append]
      rw [ih hr (by simp [hw]; omega) fun x hx => hc x (by simp [hx])]
      simp

theorem passes_scalar {c : Char} (h : 0xa0 ≤ c.toNat) : Passes (String.utf8EncodeChar c) := by
  intro f hf
  obtain ⟨lead, tail, henc, hne, hlead, hcont, hstart⟩ := utf8EncodeChar_wide (c := c) (by omega)
  have hesc : lead ≠ esc := by
    rintro rfl
    exact hlead (by decide)
  have hc0 : ¬ lead ≤ 0x1f := fun hle => hlead (UInt8.le_trans hle (by decide))
  have hpush : f.push lead = ({ f with utf8 := [lead], utf8Want := tail.length + 1 }, []) := by
    rw [push_between hf, Filter.ground, if_neg hesc, if_neg hc0, if_neg hlead, hstart]
  have hdec : fromUtf8 (lead :: tail) = some [c] := fromUtf8_eq_some.mpr (by simp [henc])
  have hc1 : isC1 c = false := by
    simp only [isC1, Bool.and_eq_false_iff, decide_eq_false_iff_not]
    omega
  rw [henc]
  simp only [Filter.filter, hpush]
  rw [filter_collect hne (by simp; omega) hcont]
  simp only [Filter.finishUtf8, List.singleton_append, List.nil_append, hdec, List.all_cons, hc1,
    List.all_nil]
  exact ⟨⟨hf.ground, rfl⟩, rfl⟩

/-! ### Control sequences -/

theorem plainFinal_range {fin : UInt8} (h : plainFinal fin = true) : 0x40 ≤ fin ∧ fin ≤ 0x7e := by
  simp only [plainFinal, inRange, Bool.or_eq_true, Bool.and_eq_true, decide_eq_true_eq, beq_iff_eq,
    UInt8.le_iff_toNat_le, ← UInt8.toNat_inj] at h ⊢
  simp at h ⊢
  omega

theorem csiForm_final {marker : Option UInt8} {params inter : List UInt8} {fin : UInt8}
    (h : csiForm marker params inter fin = true) : 0x40 ≤ fin ∧ fin ≤ 0x7e := by
  unfold csiForm at h
  split at h
  · next hp => exact plainFinal_range hp.2.2
  iterate 8
    split at h
    · next hp =>
      obtain ⟨-, -, hfin⟩ := hp
      rcases hfin with rfl | rfl <;> decide
  · cases h

/-- A byte of the sequence after `ESC [`: the marker, or what follows it. -/
theorem mem_takeMarker {rest : List UInt8} (hb : b ∈ rest) :
    b ∈ (takeMarker rest).2 ∨ inRange 0x3c 0x3f b = true := by
  cases rest with
  | nil => exact absurd hb (by simp)
  | cons m tail =>
    unfold takeMarker
    simp only
    split
    · next hm =>
      rcases List.mem_cons.mp hb with rfl | hb
      · exact .inr hm
      · exact .inl hb
    · exact .inl hb

/-- The bytes of an allowed body: parameters and intermediates, then the final
byte. -/
theorem csiAllowed_shape {body : List UInt8} (h : csiAllowed body = true) :
    ∃ rest fin, body = rest ++ [fin] ∧ (∀ b ∈ rest, 0x20 ≤ b ∧ b ≤ 0x3f) ∧
      0x40 ≤ fin ∧ fin ≤ 0x7e := by
  unfold csiAllowed at h
  split at h
  · cases h
  · next fin hlast =>
    obtain ⟨rest, rfl⟩ := List.getLast?_eq_some_iff.mp hlast
    simp only [List.dropLast_concat] at h
    split at h
    · cases h
    · next hall =>
      refine ⟨rest, fin, rfl, ?_, csiForm_final h⟩
      simp only [Bool.or_eq_true, Bool.not_eq_true', not_or, Bool.not_eq_false,
        List.all_eq_true] at hall
      intro b hb
      have hkind : isParam b = true ∨ isInter b = true ∨ inRange 0x3c 0x3f b = true := by
        rcases mem_takeMarker hb with hmem | hm
        · rw [← List.takeWhile_append_dropWhile (p := fun b => !isInter b)
            (l := (takeMarker rest).2)] at hmem
          rcases List.mem_append.mp hmem with hp | hi
          · exact .inl (hall.1 b hp)
          · exact .inr (.inl (hall.2 b hi))
        · exact .inr (.inr hm)
      simp only [isParam, isInter, inRange, Bool.or_eq_true, Bool.and_eq_true, decide_eq_true_eq,
        beq_iff_eq, UInt8.le_iff_toNat_le, ← UInt8.toNat_inj] at hkind ⊢
      simp at hkind ⊢
      omega

theorem filter_hold {rest : List UInt8} (hs : f.state = .csi) (hw : f.utf8Want = 0)
    (hlen : f.seq.length + rest.length ≤ maxSeq) (hr : ∀ b ∈ rest, 0x20 ≤ b ∧ b ≤ 0x3f) :
    f.filter rest = ({ f with seq := f.seq ++ rest }, []) := by
  induction rest generalizing f with
  | nil => simp [Filter.filter]
  | cons b rest ih =>
    rw [List.length_cons] at hlen
    obtain ⟨hlo, hhi⟩ := hr b (by simp)
    have hctl : b ≠ esc ∧ ¬ (b = can ∨ b = sub) ∧ ¬ b ≤ 0x1f := by
      simp only [esc, can, sub, ne_eq, ← UInt8.toNat_inj, UInt8.le_iff_toNat_le] at hlo hhi ⊢
      simp at hlo hhi ⊢
      omega
    have hpush : f.push b = ({ f with seq := f.seq ++ [b] }, []) := by
      rw [Filter.push, if_neg (not_not.mpr hw), Filter.dispatch, hs]
      simp only [Filter.csi, if_neg hctl.1, if_neg hctl.2.1, if_neg hctl.2.2, if_pos hhi]
      rw [Filter.hold, if_pos (by omega), hs]
    simp only [Filter.filter, hpush, List.nil_append]
    rw [ih (by exact hs) (by exact hw) (by simp; omega) fun x hx => hr x (by simp [hx])]
    simp

theorem passes_csi {body : List UInt8} (h : csiAllowed body = true)
    (hs : CsiShort (esc :: 0x5b :: body)) : Passes (esc :: 0x5b :: body) := by
  intro f hf
  have hlen := hs body rfl
  obtain ⟨rest, fin, rfl, hrest, hlo, hhi⟩ := csiAllowed_shape h
  have hctl : fin ≠ esc ∧ ¬ (fin = can ∨ fin = sub) ∧ ¬ fin ≤ 0x1f ∧ ¬ fin ≤ 0x3f := by
    simp only [esc, can, sub, ne_eq, ← UInt8.toNat_inj, UInt8.le_iff_toNat_le] at hlo hhi ⊢
    simp at hlo hhi ⊢
    omega
  have hopen : f.startEscape.push 0x5b = ({ f with seq := [esc, 0x5b], state := .csi }, []) := by
    simp [Filter.push, Filter.startEscape, hf.whole, Filter.dispatch, Filter.escape, esc, can, sub]
  have hclose : ({ f with seq := [esc, 0x5b] ++ rest, state := .csi } : Filter).push fin =
      ({ f with seq := [esc, 0x5b] ++ rest ++ [fin], state := .ground },
        [esc, 0x5b] ++ rest ++ [fin]) := by
    rw [Filter.push, if_neg (not_not.mpr hf.whole), Filter.dispatch]
    simp only [Filter.csi, if_neg hctl.1, if_neg hctl.2.1, if_neg hctl.2.2.1, if_neg hctl.2.2.2,
      if_pos hhi, Filter.toGround, List.cons_append, List.nil_append, List.drop_succ_cons,
      List.drop_zero, if_pos h]
  rw [filter_esc hf]
  simp only [Filter.filter, hopen, List.nil_append]
  have hhold := filter_hold (f := { f with seq := [esc, 0x5b], state := .csi }) rfl hf.whole
    (by simp at hlen ⊢; omega) hrest
  rw [filter_append, hhold]
  simp only [Filter.filter, hclose, List.append_nil, List.nil_append]
  exact ⟨⟨rfl, hf.whole⟩, rfl⟩

/-- **A token passes**: read between tokens, it is emitted as it is. -/
theorem filter_token {t : List UInt8} (ht : Token t) (hs : CsiShort t) : Passes t := by
  cases ht with
  | printable b hlo hhi => exact passes_printable hlo hhi
  | control b hc0 hesc henq => exact passes_control hc0 hesc henq
  | scalar c hc => exact passes_scalar hc
  | escape b hb => exact passes_escape hb
  | charset slot b hslot hb => exact passes_charset hslot hb
  | csi body hbody => exact passes_csi hbody hs

theorem passes_tokens {ts : List (List UInt8)} (h : ∀ t ∈ ts, Token t ∧ CsiShort t) :
    Passes ts.flatten := by
  induction ts with
  | nil => exact fun f hf => ⟨hf, rfl⟩
  | cons t ts ih =>
    intro f hf
    obtain ⟨ht, hs⟩ := h t (by simp)
    obtain ⟨hf', hout⟩ := filter_token ht hs f hf
    obtain ⟨hf'', hout'⟩ := ih (fun u hu => h u (by simp [hu])) _ hf'
    rw [List.flatten_cons, filter_append]
    exact ⟨hf'', by rw [hout, hout']⟩

/-! ### The language -/

theorem emitted_clean (chunks : List (List UInt8)) : Clean (emitted chunks) := by
  rw [emitted, filterAll_eq]
  exact (filter_step inv_new _).2

theorem emitted_of_clean {chunks : List (List UInt8)} (h : Clean chunks.flatten) :
    emitted chunks = chunks.flatten := by
  obtain ⟨ts, hts, heq⟩ := h
  rw [emitted, filterAll_eq, heq]
  exact (passes_tokens hts {} ⟨rfl, rfl⟩).2

/-- **The console filter's language.**  For every way of cutting the guest's
output into calls, the bytes emitted are complete tokens; an output made of
complete tokens, none a control sequence too long to hold back, is emitted
unchanged; and so filtering what was emitted, however it is cut, changes nothing. -/
theorem console_filter_language (chunks : List (List UInt8)) :
    (∃ ts : List (List UInt8), (∀ t ∈ ts, Token t) ∧ emitted chunks = ts.flatten) ∧
    (∀ ts : List (List UInt8), (∀ t ∈ ts, Token t ∧ CsiShort t) → chunks.flatten = ts.flatten →
      emitted chunks = chunks.flatten) ∧
    ∀ again : List (List UInt8), again.flatten = emitted chunks →
      emitted again = emitted chunks := by
  refine ⟨?_, ?_, ?_⟩
  · obtain ⟨ts, hts, heq⟩ := emitted_clean chunks
    exact ⟨ts, fun t ht => (hts t ht).1, heq⟩
  · intro ts hts heq
    exact emitted_of_clean ⟨ts, hts, heq⟩
  · intro again heq
    rw [← heq]
    refine emitted_of_clean ?_
    rw [heq]
    exact emitted_clean chunks

/-- A cursor movement cut in two passes, and a window title is dropped. -/
theorem console_filter_language_sample :
    emitted [[0x41, esc, 0x5b], [0x32, 0x4a]] = [0x41, esc, 0x5b, 0x32, 0x4a] ∧
      emitted [[esc, 0x5d, 0x32, 0x3b, 0x78, bel], [0x42]] = [0x42] := by
  refine ⟨(console_filter_language [[0x41, esc, 0x5b], [0x32, 0x4a]]).2.1
    [[0x41], [esc, 0x5b, 0x32, 0x4a]] ?_ rfl, by decide⟩
  intro t ht
  simp only [List.mem_cons, List.not_mem_nil, or_false] at ht
  rcases ht with rfl | rfl
  · exact ⟨.printable 0x41 (by decide) (by decide), csiShort_of_length (by simp)⟩
  · exact ⟨.csi [0x32, 0x4a] (by decide), csiShort_of_length (by simp)⟩

end ConsoleFilter
