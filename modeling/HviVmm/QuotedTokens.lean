/-
Splitting a line at separators, where quotes group.

A separator between quotes is part of its token.  The tokens keep their quotes.

* `tokens_append_sep` — a line that closes its quotes can be split off at a separator;
* `scan_open`, `scan_first` — the token a line leaves open goes on with what follows.
-/
import Mathlib.Data.List.DropRight

namespace QuotedTokens

variable {α : Type*} (sep quote : α → Bool)

/-- A token that was read, if there is one. -/
def flush (token : List α) : List (List α) := if token.isEmpty then [] else [token]

/-- Reads a line with part of a token read, in or outside quotes. -/
def scan (quoted : Bool) (token : List α) : List α → List (List α)
  | [] => flush token
  | c :: cs =>
    if sep c ∧ quoted = false then flush token ++ scan false [] cs
    else scan (quoted ^^ quote c) (token ++ [c]) cs

def tokens (line : List α) : List (List α) := scan sep quote false [] line

/-- Whether what follows is between quotes. -/
def quotedAfter (quoted : Bool) (line : List α) : Bool :=
  line.foldl (fun q c => q ^^ quote c) quoted

/-- The line closes the quotes it opens. -/
def Balanced (line : List α) : Prop := quotedAfter quote false line = false

instance (line : List α) : Decidable (Balanced quote line) := by unfold Balanced; infer_instance

variable {sep quote} {c : α} {token line rest : List α} {quoted : Bool}

theorem balanced_append (h : Balanced quote line) :
    Balanced quote (line ++ rest) ↔ Balanced quote rest := by
  unfold Balanced quotedAfter at h ⊢
  rw [List.foldl_append, h]

section Sep

variable (hsep : ∀ c, sep c = true → quote c = false)

include hsep

theorem scan_append_sep (hc : sep c = true) (h : quotedAfter quote quoted line = false) :
    scan sep quote quoted token (line ++ c :: rest) =
      scan sep quote quoted token line ++ tokens sep quote rest := by
  induction line generalizing quoted token with
  | nil =>
    obtain rfl : quoted = false := h
    simp [scan, hc, tokens]
  | cons x xs ih =>
    by_cases hx : sep x ∧ quoted = false
    · have hxs : quotedAfter quote false xs = false := by
        rw [hx.2, quotedAfter, List.foldl_cons, hsep x hx.1, Bool.xor_false] at h
        exact h
      simp only [List.cons_append, scan, if_pos hx, ih hxs, List.append_assoc]
    · simp only [List.cons_append, scan, if_neg hx]
      exact ih h

/-- **A line that closes its quotes ends its last token at a separator.** -/
theorem tokens_append_sep (hc : sep c = true) (h : Balanced quote line) :
    tokens sep quote (line ++ c :: rest) = tokens sep quote line ++ tokens sep quote rest :=
  scan_append_sep hsep hc h

omit hsep in
theorem tokens_of_all_sep (h : ∀ c ∈ line, sep c = true) : tokens sep quote line = [] := by
  induction line with
  | nil => rfl
  | cons x xs ih =>
    have hx : sep x = true := h x (List.mem_cons_self ..)
    have hxs : scan sep quote false [] xs = [] := ih fun c hc => h c (List.mem_cons_of_mem _ hc)
    simp [tokens, scan, hx, flush, hxs]

theorem tokens_append_seps (h : Balanced quote line) (hrest : ∀ c ∈ rest, sep c = true) :
    tokens sep quote (line ++ rest) = tokens sep quote line := by
  cases rest with
  | nil => rw [List.append_nil]
  | cons c cs =>
    rw [tokens_append_sep hsep (hrest c (List.mem_cons_self ..)) h,
      tokens_of_all_sep fun x hx => hrest x (List.mem_cons_of_mem _ hx), List.append_nil]

end Sep

theorem flatten_flush (token : List α) : (flush token).flatten = token := by
  cases token <;> simp [flush]

theorem flatten_scan_plain (h : ∀ c ∈ rest, quote c = false) :
    (scan sep quote false token rest).flatten = token ++ rest.filter fun c => !sep c := by
  induction rest generalizing token with
  | nil => simp [scan, flatten_flush]
  | cons x xs ih =>
    obtain ⟨hx, hxs⟩ := List.forall_mem_cons.mp h
    cases hs : sep x with
    | true => simp [scan, hs, ih hxs, flatten_flush]
    | false => simp [scan, hs, hx, ih hxs]

/-- What follows a line outside quotes adds its characters, the separators left out. -/
theorem flatten_tokens_append (hsep : ∀ c, sep c = true → quote c = false)
    (h : Balanced quote line) (hrest : ∀ c ∈ rest, quote c = false) :
    (tokens sep quote (line ++ rest)).flatten =
      (tokens sep quote line).flatten ++ rest.filter fun c => !sep c := by
  suffices ∀ quoted token, quotedAfter quote quoted line = false →
      (scan sep quote quoted token (line ++ rest)).flatten =
        (scan sep quote quoted token line).flatten ++ rest.filter fun c => !sep c from this _ _ h
  clear h
  induction line with
  | nil =>
    rintro quoted token (rfl : quoted = false)
    simp [scan, flatten_flush, flatten_scan_plain hrest]
  | cons x xs ih =>
    intro quoted token h
    by_cases hx : sep x ∧ quoted = false
    · rw [hx.2, quotedAfter, List.foldl_cons, hsep x hx.1, Bool.xor_false] at h
      simp [scan, hx, ih _ _ h]
    · simp only [List.cons_append, scan, if_neg hx]
      exact ih _ _ h

/-! ### Lines that leave a quote open -/

/-- The token a line leaves open goes on with what follows. -/
theorem scan_open (hsep : ∀ c, sep c = true → quote c = false) (quoted : Bool) (token : List α)
    (htoken : quoted = true → ∃ c ∈ token, quote c = true)
    (h : quotedAfter quote quoted line = true) :
    ∃ before opened, (∃ c ∈ opened, quote c = true) ∧ ∀ rest,
      scan sep quote quoted token (line ++ rest) = before ++ scan sep quote true opened rest := by
  induction line generalizing quoted token with
  | nil =>
    obtain rfl : quoted = true := h
    exact ⟨[], token, htoken rfl, fun _ => rfl⟩
  | cons x xs ih =>
    by_cases hx : sep x ∧ quoted = false
    · rw [hx.2, quotedAfter, List.foldl_cons, hsep x hx.1, Bool.xor_false] at h
      obtain ⟨before, opened, hquote, hscan⟩ := ih false [] (by simp) h
      exact ⟨flush token ++ before, opened, hquote, fun rest => by simp [scan, hx, hscan]⟩
    · have htoken' : (quoted ^^ quote x) = true → ∃ c ∈ token ++ [x], quote c = true := by
        intro hq
        cases quoted with
        | true =>
          obtain ⟨c, hc, hquote⟩ := htoken rfl
          exact ⟨c, List.mem_append_left _ hc, hquote⟩
        | false => exact ⟨x, by simp, by simpa using hq⟩
      obtain ⟨before, opened, hquote, hscan⟩ := ih (quoted ^^ quote x) (token ++ [x]) htoken' h
      exact ⟨before, opened, hquote, fun rest => by simp [scan, hx, hscan]⟩

theorem scan_quoted {blanks : List α} (h : ∀ c ∈ blanks, quote c = false) :
    scan sep quote true token (blanks ++ rest) = scan sep quote true (token ++ blanks) rest := by
  induction blanks generalizing token with
  | nil => simp
  | cons x xs ih =>
    obtain ⟨hx, hxs⟩ := List.forall_mem_cons.mp h
    simp [scan, hx, ih hxs]

/-- The token that was begun is the first of those that are read. -/
theorem scan_first (quoted : Bool) (line : List α) :
    ∃ front others, ∀ token, token ≠ [] →
      scan sep quote quoted token line = (token ++ front) :: others := by
  induction line generalizing quoted with
  | nil => exact ⟨[], [], fun token h => by simp [scan, flush, h]⟩
  | cons x xs ih =>
    by_cases hx : sep x ∧ quoted = false
    · exact ⟨[], scan sep quote false [] xs, fun token h => by simp [scan, hx, flush, h]⟩
    · obtain ⟨front, others, hscan⟩ := ih (quoted ^^ quote x)
      exact ⟨x :: front, others, fun token _ => by simp [scan, hx, hscan]⟩

end QuotedTokens
