/-
Splicing parameters into a kernel command line (`splice_kernel_args` of `arch::x86_64::loader`).

A bare `--` ends the kernel's own parameters; init gets what follows.  The loader puts its
parameters ahead of the first `--` that stands between spaces.  The kernel reads tokens: any
whitespace separates them, and double quotes group.

* `spliceKernelArgs_params` — the loader's parameters come after the line's own, and init's
  arguments stay, exactly for the lines that are `Spliceable`;
* `splice_in_quotes` — a `--` between spaces in quotes is taken for the end of the parameters.
-/
import HviVmm.QuotedTokens

open QuotedTokens

/-! ### The kernel's reading of the line -/

/-- The whitespace that separates parameters, as far as it is ASCII. -/
def isspace (c : Char) : Bool := c == ' ' || (9 ≤ c.toNat && c.toNat ≤ 13)

def isQuote (c : Char) : Bool := c == '"'

def dashes : List Char := ['-', '-']

def lineTokens (line : List Char) : List (List Char) := tokens isspace isQuote line

/-- The kernel's parameters. -/
def kernelParams (line : List Char) : List (List Char) := (lineTokens line).takeWhile (· ≠ dashes)

/-- What comes after a bare `--`. -/
def initArgs (line : List Char) : List (List Char) :=
  ((lineTokens line).dropWhile (· ≠ dashes)).drop 1

/-! ### The splice -/

/-- The whitespace that `trim_end` trims. -/
def isWhitespace (c : Char) : Bool :=
  c == ' ' || (9 ≤ c.toNat && c.toNat ≤ 13) || c.toNat == 0x85 || c.toNat == 0xa0 ||
    c.toNat == 0x1680 || (0x2000 ≤ c.toNat && c.toNat ≤ 0x200a) || c.toNat == 0x2028 ||
    c.toNat == 0x2029 || c.toNat == 0x202f || c.toNat == 0x205f || c.toNat == 0x3000

def trimEnd (s : List Char) : List Char := s.rdropWhile isWhitespace

/-- Where `--` is in a line, without overlaps, when the line starts at `i`. -/
def matchIndices (i : ℕ) : List Char → List ℕ
  | '-' :: '-' :: cs => i :: matchIndices (i + 2) cs
  | _ :: cs => matchIndices (i + 1) cs
  | [] => []

/-- What is at `i` and `i + 1` stands between spaces or the ends of the line. -/
def standsAlone (cmdline : List Char) (i : ℕ) : Bool :=
  (i == 0 || cmdline[i - 1]? == some ' ') &&
    (i + 2 == cmdline.length || cmdline[i + 2]? == some ' ')

def spliceKernelArgs (base extra : List Char) : List Char :=
  if extra.isEmpty then base
  else if base.isEmpty then extra
  else
    match (matchIndices 0 base).find? (standsAlone base) with
    | some i => trimEnd (base.take i) ++ ' ' :: extra ++ ' ' :: base.drop i
    | none => base ++ ' ' :: extra

/-! ### What is found -/

/-- A `--` between spaces or the ends of the line. -/
def DashesAt (line before after : List Char) : Prop :=
  line = before ++ dashes ++ after ∧ (∀ c ∈ before.getLast?, c = ' ') ∧ ∀ c ∈ after.head?, c = ' '

theorem matchIndices_step {i : ℕ} {c : Char} {cs : List Char}
    (h : ∀ cs', c = '-' → cs = '-' :: cs' → False) :
    matchIndices i (c :: cs) = matchIndices (i + 1) cs := by
  rw [matchIndices]
  exact h

theorem matchIndices_sorted (i : ℕ) (line : List Char) :
    (matchIndices i line).Pairwise (· < ·) ∧ ∀ j ∈ matchIndices i line, i ≤ j := by
  induction i, line using matchIndices.induct with
  | case1 i cs ih =>
    refine ⟨List.pairwise_cons.mpr ⟨fun j hj => ?_, ih.1⟩, fun j hj => ?_⟩
    · have := ih.2 j hj
      omega
    · rcases List.mem_cons.mp hj with rfl | hj
      · exact le_rfl
      · have := ih.2 j hj
        omega
  | case2 i c cs hc ih =>
    rw [matchIndices_step hc]
    exact ⟨ih.1, fun j hj => Nat.le_of_succ_le (ih.2 j hj)⟩
  | case3 i => exact ⟨.nil, fun j hj => by cases hj⟩

theorem mem_matchIndices {i j : ℕ} {line : List Char} (h : j ∈ matchIndices i line) :
    ∃ before after, line = before ++ dashes ++ after ∧ j = i + before.length := by
  induction i, line using matchIndices.induct with
  | case1 i cs ih =>
    rcases List.mem_cons.mp h with rfl | h
    · exact ⟨[], cs, rfl, rfl⟩
    · obtain ⟨before, after, rfl, rfl⟩ := ih h
      exact ⟨'-' :: '-' :: before, after, rfl, by simp only [List.length_cons]; omega⟩
  | case2 i c cs hc ih =>
    rw [matchIndices_step hc] at h
    obtain ⟨before, after, rfl, rfl⟩ := ih h
    exact ⟨c :: before, after, rfl, by simp only [List.length_cons]; omega⟩
  | case3 i => cases h

theorem matchIndices_complete {i : ℕ} {line before after : List Char}
    (h : line = before ++ dashes ++ after) (hlast : ∀ c ∈ before.getLast?, c ≠ '-') :
    i + before.length ∈ matchIndices i line := by
  induction i, line using matchIndices.induct generalizing before with
  | case1 i cs ih =>
    cases before with
    | nil => exact List.mem_cons_self ..
    | cons x before =>
      cases before with
      | nil =>
        -- a lone character before it would be the first dash
        obtain ⟨rfl, -⟩ := List.cons.inj h
        exact absurd rfl (hlast '-' rfl)
      | cons y before =>
        have hcs : cs = before ++ dashes ++ after := (List.cons.inj (List.cons.inj h).2).2
        have hmem := ih hcs fun c hc => hlast c (by cases before <;> simp_all)
        refine List.mem_cons_of_mem _ ?_
        simpa only [List.length_cons, Nat.add_assoc, Nat.add_comm, Nat.add_left_comm] using hmem
  | case2 i c cs hc ih =>
    rw [matchIndices_step hc]
    cases before with
    | nil =>
      obtain ⟨rfl, hcs⟩ := List.cons.inj h
      exact absurd hcs (hc _ rfl)
    | cons x before =>
      have hcs : cs = before ++ dashes ++ after := (List.cons.inj h).2
      have hmem := ih hcs fun c hc => hlast c (by cases before <;> simp_all)
      simpa only [List.length_cons, Nat.add_assoc, Nat.add_comm, Nat.add_left_comm] using hmem
  | case3 i =>
    have hlength := congrArg List.length h
    simp [dashes] at hlength

theorem standsAlone_iff (before after : List Char) :
    standsAlone (before ++ dashes ++ after) before.length = true ↔
      (∀ c ∈ before.getLast?, c = ' ') ∧ ∀ c ∈ after.head?, c = ' ' := by
  have hbefore :
      (before.length == 0 || (before ++ dashes ++ after)[before.length - 1]? == some ' ') = true ↔
      ∀ c ∈ before.getLast?, c = ' ' := by
    cases before using List.reverseRecOn with
    | nil => simp
    | append_singleton before c => simp
  have hafter : (before.length + 2 == (before ++ dashes ++ after).length ||
      (before ++ dashes ++ after)[before.length + 2]? == some ' ') = true ↔
      ∀ c ∈ after.head?, c = ' ' := by
    have hget : (before ++ dashes ++ after)[before.length + 2]? = after[0]? := by
      rw [List.getElem?_append_right (by simp [dashes])]
      simp [dashes]
    rw [hget]
    cases after with
    | nil => simp [dashes]
    | cons c after => simp [dashes]
  unfold standsAlone
  rw [Bool.and_eq_true, hbefore, hafter]

theorem DashesAt.mem {line before after : List Char} (h : DashesAt line before after) :
    before.length ∈ matchIndices 0 line ∧ standsAlone line before.length = true := by
  obtain ⟨rfl, hlast, hhead⟩ := h
  refine ⟨?_, (standsAlone_iff before after).mpr ⟨hlast, hhead⟩⟩
  have hmem := matchIndices_complete (i := 0) (rfl : before ++ dashes ++ after = _) fun c hc => ?_
  · rwa [Nat.zero_add] at hmem
  · rw [hlast c hc]
    decide

/-- The first `--` between spaces. -/
def FirstDashes (line before after : List Char) : Prop :=
  DashesAt line before after ∧
    ∀ before' after', DashesAt line before' after' → before.length ≤ before'.length

/-- **The first `--` between spaces is found.** -/
theorem find_eq_some {line : List Char} {i : ℕ}
    (h : (matchIndices 0 line).find? (standsAlone line) = some i) :
    ∃ before after, FirstDashes line before after ∧ before.length = i := by
  obtain ⟨halone, as, bs, hlist, has⟩ := List.find?_eq_some_iff_append.mp h
  have hmem : i ∈ matchIndices 0 line := by
    rw [hlist]
    exact List.mem_append_right _ (List.mem_cons_self ..)
  obtain ⟨before, after, hline, hi⟩ := mem_matchIndices hmem
  rw [Nat.zero_add] at hi
  subst hi
  refine ⟨before, after, ⟨⟨hline, ?_⟩, fun before' after' h' => ?_⟩, rfl⟩
  · rw [hline] at halone
    exact (standsAlone_iff before after).mp halone
  · -- what is found comes first, as the matches are in order
    obtain ⟨hmem', halone'⟩ := h'.mem
    have hsorted := (matchIndices_sorted 0 line).1
    rw [hlist] at hmem' hsorted
    rcases List.mem_append.mp hmem' with hearlier | hlater
    · have := has _ hearlier
      rw [halone'] at this
      cases this
    · rcases List.mem_cons.mp hlater with heq | hlater
      · exact heq.ge
      · exact (List.rel_of_pairwise_cons (List.pairwise_append.mp hsorted).2.1 hlater).le

theorem find_eq_none {line before after : List Char}
    (h : (matchIndices 0 line).find? (standsAlone line) = none) : ¬ DashesAt line before after := by
  intro hat
  obtain ⟨hmem, halone⟩ := hat.mem
  exact List.find?_eq_none.mp h _ hmem halone

/-- Something is put ahead of the first `--` between spaces. -/
theorem splice_at {base before after extra : List Char} (h : FirstDashes base before after)
    (hextra : extra ≠ []) :
    spliceKernelArgs base extra = trimEnd before ++ ' ' :: extra ++ ' ' :: (dashes ++ after) := by
  obtain ⟨hat, hfirst⟩ := h
  have hbase : base ≠ [] := by
    rw [hat.1]
    simp [dashes]
  cases hfind : (matchIndices 0 base).find? (standsAlone base) with
  | none => exact absurd hat (find_eq_none hfind)
  | some i =>
    obtain ⟨before', after', ⟨hat', hfirst'⟩, rfl⟩ := find_eq_some hfind
    have hlength := Nat.le_antisymm (hfirst before' after' hat') (hfirst' before after hat)
    simp only [spliceKernelArgs, List.isEmpty_iff, if_neg hextra, if_neg hbase, hfind, ← hlength]
    rw [hat.1, List.append_assoc before, List.take_left, List.drop_left, List.append_assoc]

/-- Without one it is appended. -/
theorem splice_none {base extra : List Char} (h : ∀ before after, ¬ DashesAt base before after)
    (hbase : base ≠ []) (hextra : extra ≠ []) :
    spliceKernelArgs base extra = base ++ ' ' :: extra := by
  cases hfind : (matchIndices 0 base).find? (standsAlone base) with
  | none => simp only [spliceKernelArgs, List.isEmpty_iff, if_neg hextra, if_neg hbase, hfind]
  | some i =>
    obtain ⟨before, after, hfirst, -⟩ := find_eq_some hfind
    exact absurd hfirst.1 (h before after)

/-! ### The parameters -/

/-- The kernel's parameters are those of the line followed by those spliced in, and init's arguments
are those of the line. -/
def Spliced (base extra : List Char) : Prop :=
  kernelParams (spliceKernelArgs base extra) = kernelParams base ++ kernelParams extra ∧
    initArgs (spliceKernelArgs base extra) = initArgs base

/-- A line the splice can read.  What it has ahead of its first `--` between spaces, or the whole of
it, closes its quotes and has no bare `--` for the kernel; ahead of a `--`, the blanks at the end
are ones that separate parameters. -/
structure Spliceable (line : List Char) : Prop where
  inserted : ∀ before after, FirstDashes line before after → Balanced isQuote before ∧
    dashes ∉ lineTokens before ∧ ∀ c ∈ before.rtakeWhile isWhitespace, isspace c = true
  appended : (∀ before after, ¬ DashesAt line before after) →
    Balanced isQuote line ∧ dashes ∉ lineTokens line

theorem isspace_quote (c : Char) (h : isspace c = true) : isQuote c = false := by
  unfold isQuote
  rw [beq_eq_false_iff_ne]
  rintro rfl
  revert h
  decide

theorem isWhitespace_quote {c : Char} (h : isWhitespace c = true) : isQuote c = false := by
  unfold isQuote
  rw [beq_eq_false_iff_ne]
  rintro rfl
  revert h
  decide

/-- The tokens before a `--`, and those from it on. -/
theorem lineTokens_dashes (after : List Char) (h : ∀ c ∈ after.head?, c = ' ') :
    lineTokens (dashes ++ after) = dashes :: lineTokens after.tail := by
  cases after with
  | nil => rfl
  | cons c after =>
    obtain rfl : c = ' ' := h c rfl
    exact tokens_append_sep isspace_quote rfl rfl

theorem lineTokens_before {before rest : List Char} (hlast : ∀ c ∈ before.getLast?, c = ' ')
    (h : Balanced isQuote before) :
    lineTokens (before ++ rest) = lineTokens before ++ lineTokens rest := by
  cases before using List.reverseRecOn with
  | nil => rfl
  | append_singleton before c =>
    obtain rfl : c = ' ' := hlast c (by simp)
    have hbefore : Balanced isQuote before := by
      unfold QuotedTokens.Balanced quotedAfter at h ⊢
      rw [List.foldl_append] at h
      simpa [isQuote] using h
    have hspace : lineTokens (before ++ [' ']) = lineTokens before :=
      tokens_append_seps isspace_quote hbefore fun c hc => by
        rw [List.mem_singleton.mp hc]
        rfl
    rw [hspace, List.append_assoc]
    exact tokens_append_sep isspace_quote rfl hbefore

theorem trimEnd_append (line : List Char) : trimEnd line ++ line.rtakeWhile isWhitespace = line :=
  List.rdropWhile_append_rtakeWhile ..

theorem trimmed_quote {line : List Char} {c : Char} (h : c ∈ line.rtakeWhile isWhitespace) :
    isQuote c = false :=
  isWhitespace_quote (List.mem_rtakeWhile_imp h)

/-- Trimming a line leaves its quotes as they are. -/
theorem balanced_trimEnd (line : List Char) :
    Balanced isQuote (trimEnd line) ↔ Balanced isQuote line := by
  have hquotes : ∀ (blanks : List Char) (q : Bool), (∀ c ∈ blanks, isQuote c = false) →
      blanks.foldl (fun q c => q ^^ isQuote c) q = q := by
    intro blanks
    induction blanks with
    | nil => exact fun q _ => rfl
    | cons c cs ih =>
      intro q hcs
      obtain ⟨hc, hcs⟩ := List.forall_mem_cons.mp hcs
      rw [List.foldl_cons, hc, Bool.xor_false, ih q hcs]
  unfold QuotedTokens.Balanced quotedAfter
  conv_rhs => rw [← trimEnd_append line, List.foldl_append, hquotes _ _ fun c => trimmed_quote]

/-- What is trimmed off is nothing to the kernel exactly if it separates parameters. -/
theorem flatten_trimEnd {line : List Char} (h : Balanced isQuote line) :
    (lineTokens line).flatten =
      (lineTokens (trimEnd line)).flatten ++
        (line.rtakeWhile isWhitespace).filter fun c => !isspace c := by
  conv_lhs => rw [← trimEnd_append line]
  exact flatten_tokens_append isspace_quote ((balanced_trimEnd line).mpr h) fun c => trimmed_quote

theorem lineTokens_trimEnd {line : List Char} (h : Balanced isQuote line)
    (hblanks : ∀ c ∈ line.rtakeWhile isWhitespace, isspace c = true) :
    lineTokens (trimEnd line) = lineTokens line := by
  conv_rhs => rw [← trimEnd_append line]
  exact (tokens_append_seps isspace_quote ((balanced_trimEnd line).mpr h) hblanks).symm

theorem params_of_not_mem {line : List Char} (h : dashes ∉ lineTokens line) :
    kernelParams line = lineTokens line ∧ initArgs line = [] := by
  have hall : ∀ t ∈ lineTokens line, decide (t ≠ dashes) = true := by
    intro t ht
    rw [decide_eq_true_iff]
    rintro rfl
    exact h ht
  refine ⟨List.takeWhile_eq_self_iff.mpr hall, ?_⟩
  rw [initArgs, List.dropWhile_eq_nil_iff.mpr hall]
  rfl

theorem params_of_append {line : List Char} {params args : List (List Char)}
    (hline : lineTokens line = params ++ dashes :: args) (h : dashes ∉ params) :
    kernelParams line = params ∧ initArgs line = args := by
  have hall : ∀ t ∈ params, decide (t ≠ dashes) = true := by
    intro t ht
    rw [decide_eq_true_iff]
    rintro rfl
    exact h ht
  rw [kernelParams, initArgs, hline, List.takeWhile_append_of_pos hall,
    List.dropWhile_append_of_pos hall]
  simp

/-- What is appended to a line without a bare `--` adds to its parameters. -/
theorem params_appended {base extra : List Char} (hbalanced : Balanced isQuote base)
    (hbase : dashes ∉ lineTokens base) (hextra : dashes ∉ lineTokens extra) :
    kernelParams (base ++ ' ' :: extra) = kernelParams base ++ kernelParams extra ∧
      initArgs (base ++ ' ' :: extra) = initArgs base := by
  have htokens : lineTokens (base ++ ' ' :: extra) = lineTokens base ++ lineTokens extra :=
    tokens_append_sep isspace_quote rfl hbalanced
  have hall : dashes ∉ lineTokens (base ++ ' ' :: extra) := by
    rw [htokens, List.mem_append]
    exact fun h => h.elim hbase hextra
  rw [(params_of_not_mem hall).1, (params_of_not_mem hbase).1, (params_of_not_mem hextra).1,
    htokens]
  exact ⟨rfl, (params_of_not_mem hall).2.trans (params_of_not_mem hbase).2.symm⟩

/-- What the kernel reads in a line, and in the spliced one, when what comes before the `--` closes
its quotes. -/
theorem lineTokens_spliced {before after extra : List Char}
    (hat : DashesAt (before ++ dashes ++ after) before after) (hbefore : Balanced isQuote before)
    (hextra : Balanced isQuote extra) :
    lineTokens (before ++ dashes ++ after) = lineTokens before ++ dashes :: lineTokens after.tail ∧
      lineTokens (trimEnd before ++ ' ' :: extra ++ ' ' :: (dashes ++ after)) =
        (lineTokens (trimEnd before) ++ lineTokens extra) ++ dashes :: lineTokens after.tail := by
  obtain ⟨-, hlast, hhead⟩ := hat
  have htrimmed := (balanced_trimEnd before).mpr hbefore
  have hboth : Balanced isQuote (trimEnd before ++ ' ' :: extra) :=
    (balanced_append htrimmed).mpr hextra
  have hhalf : lineTokens (trimEnd before ++ ' ' :: extra) =
      lineTokens (trimEnd before) ++ lineTokens extra :=
        tokens_append_sep isspace_quote rfl htrimmed
  constructor
  · rw [List.append_assoc, lineTokens_before hlast hbefore, lineTokens_dashes after hhead]
  · rw [← hhalf, ← lineTokens_dashes after hhead]
    exact tokens_append_sep isspace_quote rfl hboth

/-- What is put ahead of the first bare `--` adds to the parameters before it. -/
theorem params_inserted {before after extra : List Char}
    (hat : DashesAt (before ++ dashes ++ after) before after) (hbefore : Balanced isQuote before)
    (hnone : dashes ∉ lineTokens before)
    (hblanks : ∀ c ∈ before.rtakeWhile isWhitespace, isspace c = true)
    (hextra : Balanced isQuote extra) (hdashes : dashes ∉ lineTokens extra) :
    kernelParams (trimEnd before ++ ' ' :: extra ++ ' ' :: (dashes ++ after)) =
        kernelParams (before ++ dashes ++ after) ++ kernelParams extra ∧
      initArgs (trimEnd before ++ ' ' :: extra ++ ' ' :: (dashes ++ after)) =
        initArgs (before ++ dashes ++ after) := by
  obtain ⟨hbase, hspliced⟩ := lineTokens_spliced hat hbefore hextra
  rw [lineTokens_trimEnd hbefore hblanks] at hspliced
  have hboth : dashes ∉ lineTokens before ++ lineTokens extra := by
    rw [List.mem_append]
    exact fun h => h.elim hnone hdashes
  obtain ⟨hresult, hresultInit⟩ := params_of_append hspliced hboth
  obtain ⟨horig, horigInit⟩ := params_of_append hbase hnone
  rw [hresult, hresultInit, horig, horigInit, (params_of_not_mem hdashes).1]
  exact ⟨rfl, rfl⟩

/-! ### Lines that are spliced wrong -/

/-- What is put into an open quote adds no parameter. -/
theorem length_params_open {line blanks blanks' rest : List Char} (h : ¬ Balanced isQuote line)
    (hblanks : ∀ c ∈ blanks, isQuote c = false) (hblanks' : ∀ c ∈ blanks', isQuote c = false) :
    (kernelParams (line ++ (blanks ++ rest))).length =
      (kernelParams (line ++ (blanks' ++ rest))).length := by
  have hopen : quotedAfter isQuote false line = true := by simpa [QuotedTokens.Balanced] using h
  obtain ⟨before, opened, ⟨q, hq, hquote⟩, hscan⟩ :=
    scan_open isspace_quote false [] (by simp) hopen
  obtain ⟨front, others, hfirst⟩ := @scan_first _ isspace isQuote true rest
  have hparams : ∀ blanks : List Char, (∀ c ∈ blanks, isQuote c = false) →
      (kernelParams (line ++ (blanks ++ rest))).length =
        if (before.takeWhile (· ≠ dashes)).length = before.length then
          before.length + ((others.takeWhile (· ≠ dashes)).length + 1)
        else (before.takeWhile (· ≠ dashes)).length := by
    intro blanks hblanks
    have hmem : q ∈ opened ++ blanks ++ front := by simp [hq]
    have hne : opened ++ blanks ++ front ≠ dashes := by
      rintro heq
      rw [heq] at hmem
      rcases List.mem_pair.mp hmem with rfl | rfl <;> cases hquote
    have htokens : lineTokens (line ++ (blanks ++ rest)) =
        before ++ (opened ++ blanks ++ front) :: others := by
      rw [lineTokens, tokens, hscan, scan_quoted hblanks,
        hfirst _ (by simp [List.ne_nil_of_mem hq])]
    rw [kernelParams, htokens, List.takeWhile_append,
      List.takeWhile_cons_of_pos (by simpa using hne)]
    split <;> simp
  rw [hparams blanks hblanks, hparams blanks' hblanks']

/-- A line with a bare `--` is its parameters and init's arguments. -/
theorem lineTokens_eq {line : List Char} (h : dashes ∈ lineTokens line) :
    lineTokens line = kernelParams line ++ dashes :: initArgs line := by
  obtain ⟨params, args, hline, hnone⟩ := List.eq_append_cons_of_mem h
  obtain ⟨hparams, hargs⟩ := params_of_append hline hnone
  rw [hparams, hargs, hline]

/-- What comes after a bare `--` is no parameter. -/
theorem takeWhile_dashes {params : List (List Char)} (h : dashes ∈ params)
    (rest : List (List Char)) :
    (params ++ rest).takeWhile (· ≠ dashes) = params.takeWhile (· ≠ dashes) := by
  obtain ⟨front, others, rfl, hnone⟩ := List.eq_append_cons_of_mem h
  have hall : ∀ t ∈ front, decide (t ≠ dashes) = true := fun t ht => by
    rw [decide_eq_true_iff]
    exact fun heq => hnone (heq ▸ ht)
  rw [List.append_assoc, List.takeWhile_append_of_pos hall, List.takeWhile_append_of_pos hall]
  simp

/-- **A line that takes one more parameter** ahead of its `--` can be read by the splice. -/
theorem inserted_of_spliced {base before after : List Char} (hfirst : FirstDashes base before after)
    (h : Spliced base ['x']) :
    Balanced isQuote before ∧ dashes ∉ lineTokens before ∧
      ∀ c ∈ before.rtakeWhile isWhitespace, isspace c = true := by
  obtain ⟨hparams, hinit⟩ := h
  rw [splice_at hfirst (by simp)] at hparams hinit
  obtain rfl := hfirst.1.1
  have hcount := congrArg List.length hparams
  rw [List.length_append, show (kernelParams ['x']).length = 1 from rfl] at hcount
  have hbefore : Balanced isQuote before := by
    by_contra hopen
    have hsame := @length_params_open _ (before.rtakeWhile isWhitespace) [' ', 'x', ' ']
      (dashes ++ after) (mt (balanced_trimEnd before).mp hopen)
        (fun c => trimmed_quote) (by simp [isQuote])
    rw [← List.append_assoc, trimEnd_append, ← List.append_assoc] at hsame
    simp only [List.append_assoc, List.cons_append, List.nil_append] at hsame hcount
    omega
  obtain ⟨hbase, hspliced⟩ := @lineTokens_spliced _ _ ['x'] hfirst.1 hbefore (by decide)
  -- the two lines have the same characters in their tokens, apart from what was spliced in
  have hblanks : ∀ c ∈ before.rtakeWhile isWhitespace, isspace c = true := by
    have hline := @lineTokens_eq (before ++ dashes ++ after) (by rw [hbase]; simp)
    have hresult := @lineTokens_eq (trimEnd before ++ ' ' :: ['x'] ++ ' ' :: (dashes ++ after))
      (by rw [hspliced]; simp)
    rw [hbase] at hline
    rw [hspliced, hparams, hinit] at hresult
    have hline := congrArg (fun tokens => tokens.flatten.length) hline
    have hresult := congrArg (fun tokens => tokens.flatten.length) hresult
    simp only [List.flatten_append, List.flatten_cons, List.length_append] at hline hresult
    rw [flatten_trimEnd hbefore, List.length_append] at hline
    have hnil : ((before.rtakeWhile isWhitespace).filter fun c => !isspace c).length = 0 := by
      have hx : (lineTokens ['x']).flatten.length = (kernelParams ['x']).flatten.length := rfl
      omega
    rw [List.length_eq_zero_iff, List.filter_eq_nil_iff] at hnil
    simpa using hnil
  refine ⟨hbefore, fun hmem => ?_, hblanks⟩
  rw [lineTokens_trimEnd hbefore hblanks, List.append_assoc (lineTokens before)] at hspliced
  rw [kernelParams, kernelParams, hbase, hspliced, takeWhile_dashes hmem,
    takeWhile_dashes hmem] at hcount
  omega

/-- The same at the end of a line. -/
theorem appended_of_spliced {base : List Char}
    (hnone : ∀ before after, ¬ DashesAt base before after)
    (h : Spliced base ['x']) : Balanced isQuote base ∧ dashes ∉ lineTokens base := by
  by_cases hempty : base = []
  · subst hempty
    decide
  have hcount := congrArg List.length h.1
  rw [splice_none hnone hempty (by simp), List.length_append,
    show (kernelParams ['x']).length = 1 from rfl] at hcount
  have hbalanced : Balanced isQuote base := by
    by_contra hopen
    have hsame := @length_params_open base [] [' ', 'x'] [] hopen (by simp) (by simp [isQuote])
    simp only [List.append_nil] at hsame
    omega
  refine ⟨hbalanced, fun hmem => ?_⟩
  have htokens : lineTokens (base ++ ' ' :: ['x']) = lineTokens base ++ lineTokens ['x'] :=
    tokens_append_sep isspace_quote rfl hbalanced
  rw [kernelParams, kernelParams, htokens, takeWhile_dashes hmem] at hcount
  omega

/-- **The splice keeps both sides of the line**, whatever is spliced in with closed quotes and no
bare `--`, exactly if the line is one it can read. -/
theorem spliceKernelArgs_params (base : List Char) :
    (∀ extra, Balanced isQuote extra → dashes ∉ lineTokens extra → Spliced base extra) ↔
      Spliceable base := by
  constructor
  · intro h
    have hx : Spliced base ['x'] := h ['x'] (by decide) (by decide)
    exact ⟨fun before after hfirst => inserted_of_spliced hfirst hx,
      fun hnone => appended_of_spliced hnone hx⟩
  · intro h extra hextra hdashes
    by_cases hne : extra = []
    · subst hne
      exact ⟨(List.append_nil _).symm, rfl⟩
    by_cases hbase : base = []
    · subst hbase
      simp only [Spliced, spliceKernelArgs, List.isEmpty_iff, if_neg hne]
      exact ⟨rfl, (params_of_not_mem hdashes).2⟩
    unfold Spliced
    cases hfind : (matchIndices 0 base).find? (standsAlone base) with
    | none =>
      have hnone : ∀ before after, ¬ DashesAt base before after := fun _ _ => find_eq_none hfind
      obtain ⟨hbalanced, hparams⟩ := h.appended hnone
      rw [splice_none hnone hbase hne]
      exact params_appended hbalanced hparams hdashes
    | some i =>
      obtain ⟨before, after, hfirst, -⟩ := find_eq_some hfind
      obtain ⟨hbefore, hparams, hblanks⟩ := h.inserted before after hfirst
      rw [splice_at hfirst hne]
      obtain rfl := hfirst.1.1
      exact params_inserted hfirst.1 hbefore hparams hblanks hextra hdashes

/-- A line with a quoted argument for init. -/
def wrapperLine : List Char := "quiet rdinit=/init  -- sh -c \"a -- b\"".toList

theorem spliceKernelArgs_params_wrapper :
    kernelParams (spliceKernelArgs wrapperLine "console=ttyS0".toList) =
        ["quiet".toList, "rdinit=/init".toList, "console=ttyS0".toList] ∧
      initArgs (spliceKernelArgs wrapperLine "console=ttyS0".toList) = initArgs wrapperLine := by
  obtain ⟨before, after, hfirst, hlength⟩ := @find_eq_some wrapperLine 20 (by decide)
  have hbefore : before = wrapperLine.take 20 := by
    rw [hfirst.1.1, List.append_assoc, ← hlength, List.take_left]
  have hspliceable : Spliceable wrapperLine := by
    refine ⟨fun before' after' hfirst' => ?_, fun hnone => absurd hfirst.1 (hnone before after)⟩
    have hsame : before'.length = before.length :=
      Nat.le_antisymm (hfirst'.2 _ _ hfirst.1) (hfirst.2 _ _ hfirst'.1)
    have hbefore' : before' = wrapperLine.take 20 := by
      rw [hfirst'.1.1, List.append_assoc, ← hlength, ← hsame, List.take_left]
    rw [hbefore', ← List.all_eq_true]
    decide
  obtain ⟨hparams, hinit⟩ := (spliceKernelArgs_params wrapperLine).mpr hspliceable
    "console=ttyS0".toList (by decide) (by decide)
  exact ⟨hparams.trans (by decide), hinit⟩

/-- The quoted `--` is taken for the end of the parameters: what is spliced in ends up in the
middle of a quoted value. -/
theorem splice_in_quotes :
    let base := "foo=\"a -- b\"".toList
    let extra := "x".toList
    Balanced isQuote base ∧ dashes ∉ lineTokens base ∧
      kernelParams base ++ kernelParams extra = ["foo=\"a -- b\"".toList, "x".toList] ∧
      kernelParams (spliceKernelArgs base extra) = ["foo=\"a x -- b\"".toList] := by
  decide
