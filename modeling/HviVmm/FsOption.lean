/-
The `--fs` option.

`FsSpec::parse` of `config.rs` takes the text of one export apart at its commas, each field at its
first equals sign, and reads the values the form of the export calls for.  The grammar is a
statement about the fields alone: which keys there are, with which texts, and what they stand for.

* `FsSpec.parse_grammar` — what is accepted is what the grammar describes, with the values it
  gives, and nothing else;
* `FsSpec.parse_signed_count` — a count may carry a plus sign, and an id of ten digits may be
  refused;
* `checkExportOverlap_accepts` — no host path is both in an export the guest may write and in one it
  may not.
-/
import HviVmm.FsState
import HviVmm.ResultChain

open ResultChain

/-- The keys of an export. -/
inductive FsKey where
  | tag | socket | numQueues | queueSize | path | readonly | cache | uid | gid
  deriving DecidableEq

namespace FsKey

def text : FsKey → List Char
  | tag => "tag".toList
  | socket => "socket".toList
  | numQueues => "num_queues".toList
  | queueSize => "queue_size".toList
  | path => "path".toList
  | readonly => "readonly".toList
  | cache => "cache".toList
  | uid => "uid".toList
  | gid => "gid".toList

/-- The keys `parse` allows. -/
def allowed : List FsKey := [tag, socket, numQueues, queueSize, path, readonly, cache, uid, gid]

def ofText (name : List Char) : Option FsKey := allowed.find? fun key => key.text == name

theorem ofText_eq_some {name : List Char} {key : FsKey} :
    ofText name = some key ↔ name = key.text := by
  constructor
  · intro h
    have hbeq : (key.text == name) = true := by simpa using List.find?_some h
    exact (eq_of_beq hbeq).symm
  · rintro rfl
    cases key <;> decide

theorem not_mem_text (key : FsKey) : '=' ∉ key.text ∧ ',' ∉ key.text := by
  cases key <;> decide

end FsKey

/-- Why an export is refused, with what the message quotes. -/
inductive FsSpecError where
  | notKeyValue (field : List Char)
  | unknownKey (name : List Char)
  | givenTwice (key : FsKey)
  | noTag
  | badTag
  | twoKinds
  | noPathOrSocket
  | doesNotApply (key : FsKey)
  | noQueues
  | badQueueSize (size : ℕ)
  | badValue (key : FsKey) (value : List Char)
  deriving DecidableEq

/-- The fields of an export: each a key and its value. -/
abbrev FsFields := List (FsKey × List Char)

/-- `str::split_once`. -/
def splitOnce (sep : Char) : List Char → Option (List Char × List Char)
  | [] => none
  | c :: cs => if c = sep then some ([], cs) else (splitOnce sep cs).map fun p => (c :: p.1, p.2)

/-- One turn of the loop of `key_values`. -/
def addField (fields : FsFields) (field : List Char) : Except FsSpecError FsFields :=
  match splitOnce '=' field with
  | none => .error (.notKeyValue field)
  | some (name, value) =>
    match FsKey.ofText name with
    | none => .error (.unknownKey name)
    | some key =>
      if key ∈ fields.map Prod.fst then .error (.givenTwice key) else .ok (fields ++ [(key, value)])

def keyValues (spec : List Char) : Except FsSpecError FsFields :=
  (spec.splitOn ',').foldlM addField []

/-- `str::parse` at an unsigned type whose largest value is `max`. -/
def parseUnsigned (max : ℕ) (text : List Char) : Option ℕ :=
  let digits := if text.head? = some '+' then text.tail else text
  if digits ≠ [] ∧ digits.all Char.isDigit ∧ Nat.ofDigitChars 10 digits 0 ≤ max then
    some (Nat.ofDigitChars 10 digits 0)
  else none

def usizeMax : ℕ := 2 ^ 64 - 1
def u16Max : ℕ := 2 ^ 16 - 1
def u32Max : ℕ := 2 ^ 32 - 1

inductive ShareMode where
  | readOnly | readWrite
  deriving DecidableEq

/-- The texts `readonly` may be. -/
def modeTexts : List (List Char × ShareMode) :=
  [("off".toList, .readWrite), ("on".toList, .readOnly)]

/-- The texts `cache` may be. -/
def cacheTexts : List (List Char × CachePolicy) :=
  [("auto".toList, .auto), ("always".toList, .always), ("none".toList, .none)]

structure FsShare where
  path : List Char
  tag : List Char
  mode : ShareMode
  cache : CachePolicy
  uid : ℕ
  gid : ℕ
  deriving DecidableEq

structure FsConfig where
  tag : List Char
  socket : List Char
  numQueues : ℕ
  queueSize : ℕ
  deriving DecidableEq

inductive FsSpec where
  | share (share : FsShare)
  | socket (config : FsConfig)
  deriving DecidableEq

/-- `str::len`. -/
def utf8Len (text : List Char) : ℕ := (text.map Char.utf8Size).sum

def maxTagLen : ℕ := 36

/-- The tags the guest could not be given. -/
def BadTag (tag : List Char) : Prop := tag = [] ∨ maxTagLen < utf8Len tag ∨ '\x00' ∈ tag

instance (tag : List Char) : Decidable (BadTag tag) :=
  inferInstanceAs (Decidable (_ ∨ _))

namespace FsConfig

def defaultNumQueues : ℕ := 1
def defaultQueueSize : ℕ := 1024
def maxQueueSize : ℕ := 32768

def validate (fs : FsConfig) : Except FsSpecError Unit :=
  if BadTag fs.tag then .error .badTag
  else if fs.numQueues = 0 then .error .noQueues
  else if ¬ fs.queueSize.isPowerOfTwo ∨ maxQueueSize < fs.queueSize then
    .error (.badQueueSize fs.queueSize)
  else .ok ()

end FsConfig

namespace FsFields

def get (fields : FsFields) (key : FsKey) : Option (List Char) := fields.lookup key

/-- The value of a key, unless it is empty. -/
def filled (fields : FsFields) (key : FsKey) : Option (List Char) :=
  (fields.get key).filter fun v => !v.isEmpty

/-- Refuses the keys of the other form. -/
def other (fields : FsFields) (keys : List FsKey) : Except FsSpecError Unit :=
  match keys.find? fun key => (fields.get key).isSome with
  | some key => .error (.doesNotApply key)
  | none => .ok ()

/-- The value a key gives, or the default. -/
def value (fields : FsFields) (key : FsKey) (default : α) (read : List Char → Option α) :
    Except FsSpecError α :=
  match fields.get key with
  | none => .ok default
  | some v =>
    match read v with
    | some a => .ok a
    | none => .error (.badValue key v)

/-- The `socket=` form. -/
def socketForm (fields : FsFields) (tag socket : List Char) : Except FsSpecError FsSpec := do
  fields.other [.readonly, .cache, .uid, .gid]
  let numQueues ← fields.value .numQueues FsConfig.defaultNumQueues (parseUnsigned usizeMax)
  let queueSize ← fields.value .queueSize FsConfig.defaultQueueSize (parseUnsigned u16Max)
  let fs : FsConfig := { tag, socket, numQueues, queueSize }
  fs.validate
  pure (.socket fs)

/-- The `path=` form. -/
def pathForm (fields : FsFields) (tag path : List Char) : Except FsSpecError FsSpec := do
  fields.other [.numQueues, .queueSize]
  let mode ← fields.value .readonly .readWrite fun v => modeTexts.lookup v
  let cache ← fields.value .cache .auto fun v => cacheTexts.lookup v
  let uid ← fields.value .uid 0 (parseUnsigned u32Max)
  let gid ← fields.value .gid 0 (parseUnsigned u32Max)
  pure (.share { path, tag, mode, cache, uid, gid })

/-- The export the fields describe. -/
def describe (fields : FsFields) : Except FsSpecError FsSpec :=
  match fields.get .tag with
  | none => .error .noTag
  | some tag =>
    if BadTag tag then .error .badTag
    else
      match fields.filled .path, fields.filled .socket with
      | some _, some _ => .error .twoKinds
      | none, none => .error .noPathOrSocket
      | none, some socket => fields.socketForm tag socket
      | some path, none => fields.pathForm tag path

end FsFields

def FsSpec.parse (spec : List Char) : Except FsSpecError FsSpec := do
  (← keyValues spec).describe

/-! ### The grammar -/

/-- A field as it is written. -/
def fieldText (field : FsKey × List Char) : List Char := field.1.text ++ '=' :: field.2

/-- The text is the fields between commas, no key of them twice. -/
structure ListedAs (spec : List Char) (fields : FsFields) : Prop where
  text : spec = [','].intercalate (fields.map fieldText)
  some : fields ≠ []
  keys : (fields.map Prod.fst).Nodup
  values : ∀ field ∈ fields, ',' ∉ field.2

/-- The text is decimal digits, which a plus sign may precede, for the number `n`. -/
def Decimal (max : ℕ) (text : List Char) (n : ℕ) : Prop :=
  ∃ digits, (text = digits ∨ text = '+' :: digits) ∧ digits ≠ [] ∧ (∀ c ∈ digits, c.isDigit) ∧
    n = Nat.ofDigitChars 10 digits 0 ∧ n ≤ max

namespace FsFields

variable (fields : FsFields) (key : FsKey)

def Lacks : Prop := ∀ value, (key, value) ∉ fields

/-- The key is absent or its value is empty. -/
def Blank : Prop := ∀ value, (key, value) ∈ fields → value = []

/-- The key has a text that stands for `a`, or is absent and `a` is the default. -/
def Gives (default : α) (Means : List Char → α → Prop) (a : α) : Prop :=
  (∃ text, (key, text) ∈ fields ∧ Means text a) ∨ fields.Lacks key ∧ a = default

/-- The fields are those of the `socket=` export `fs`. -/
structure OfSocket (fs : FsConfig) : Prop where
  tag : (.tag, fs.tag) ∈ fields ∧ ¬ BadTag fs.tag
  socket : (.socket, fs.socket) ∈ fields ∧ fs.socket ≠ []
  path : fields.Blank .path
  other : ∀ key ∈ [FsKey.readonly, .cache, .uid, .gid], fields.Lacks key
  numQueues : fields.Gives .numQueues 1 (Decimal usizeMax) fs.numQueues ∧ 1 ≤ fs.numQueues
  queueSize : fields.Gives .queueSize 1024 (Decimal u16Max) fs.queueSize ∧
    fs.queueSize.isPowerOfTwo ∧ fs.queueSize ≤ 32768

/-- The fields are those of the `path=` export `share`. -/
structure OfPath (share : FsShare) : Prop where
  tag : (.tag, share.tag) ∈ fields ∧ ¬ BadTag share.tag
  path : (.path, share.path) ∈ fields ∧ share.path ≠ []
  socket : fields.Blank .socket
  other : ∀ key ∈ [FsKey.numQueues, .queueSize], fields.Lacks key
  mode : fields.Gives .readonly .readWrite (fun text mode => (text, mode) ∈ modeTexts) share.mode
  cache : fields.Gives .cache .auto (fun text cache => (text, cache) ∈ cacheTexts) share.cache
  uid : fields.Gives .uid 0 (Decimal u32Max) share.uid
  gid : fields.Gives .gid 0 (Decimal u32Max) share.gid

/-- The fields are those of the export. -/
def Describes : FsSpec → Prop
  | .socket fs => fields.OfSocket fs
  | .share share => fields.OfPath share

end FsFields

/-! ### The fields -/

theorem splitOnce_eq_some {sep : Char} {field key value : List Char} :
    splitOnce sep field = some (key, value) ↔ field = key ++ sep :: value ∧ sep ∉ key := by
  induction field generalizing key with
  | nil => simp [splitOnce]
  | cons c cs ih =>
    rw [splitOnce]
    split_ifs with hc
    · subst hc
      cases key with
      | nil => simp [eq_comm]
      | cons k ks =>
        constructor
        · intro h
          cases h
        · rintro ⟨h, hks⟩
          exact absurd (List.mem_cons.2 (.inl (List.cons.inj h).1)) hks
    · cases key with
      | nil => simp [hc]
      | cons k ks =>
        rw [Option.map_eq_some_iff]
        constructor
        · rintro ⟨⟨a, b⟩, hrest, heq⟩
          cases heq
          obtain ⟨rfl, ha⟩ := ih.1 hrest
          exact ⟨rfl, List.not_mem_cons_of_ne_of_not_mem (Ne.symm hc) ha⟩
        · rintro ⟨heq, hks⟩
          cases heq
          exact ⟨(ks, value), ih.2 ⟨rfl, List.not_mem_of_not_mem_cons hks⟩, rfl⟩

theorem addField_eq_ok {fields out : FsFields} {text : List Char} :
    addField fields text = .ok out ↔
      ∃ field, text = fieldText field ∧ field.1 ∉ fields.map Prod.fst ∧ out = fields ++
      [field] := by
  constructor
  · intro h
    unfold addField at h
    split at h
    · cases h
    case h_2 name value hsplit =>
      split at h
      · cases h
      case h_2 key hkey =>
        split_ifs at h with htwice
        cases h
        rw [FsKey.ofText_eq_some] at hkey
        subst hkey
        exact ⟨(key, value), (splitOnce_eq_some.1 hsplit).1, htwice, rfl⟩
  · rintro ⟨⟨key, value⟩, rfl, hnew, rfl⟩
    have hsplit : splitOnce '=' (fieldText (key, value)) = some (key.text, value) :=
      splitOnce_eq_some.2 ⟨rfl, key.not_mem_text.1⟩
    have hkey : FsKey.ofText key.text = some key := FsKey.ofText_eq_some.2 rfl
    simp only [addField, hsplit, hkey, if_neg hnew]

/-- The loop of `key_values`, begun with fields whose keys differ. -/
theorem foldlM_addField {pieces : List (List Char)} {fields out : FsFields}
    (hkeys : (fields.map Prod.fst).Nodup) :
    pieces.foldlM addField fields = .ok out ↔
      ∃ more, pieces = more.map fieldText ∧ out = fields ++ more ∧ (out.map Prod.fst).Nodup := by
  induction pieces generalizing fields with
  | nil =>
    constructor
    · intro h
      cases h
      exact ⟨[], rfl, (List.append_nil _).symm, hkeys⟩
    · rintro ⟨more, hmore, rfl, -⟩
      rw [List.map_eq_nil_iff.1 hmore.symm, List.append_nil]
      rfl
  | cons piece pieces ih =>
    rw [List.foldlM_cons, bind_eq_ok]
    have hnext {field : FsKey × List Char} (hnew : field.1 ∉ fields.map Prod.fst) :
        ((fields ++ [field]).map Prod.fst).Nodup := by
      rw [List.map_append]
      exact hkeys.append (List.nodup_singleton _) (List.disjoint_singleton.2 hnew)
    constructor
    · rintro ⟨next, hfirst, hrest⟩
      obtain ⟨field, rfl, hnew, rfl⟩ := addField_eq_ok.1 hfirst
      obtain ⟨more, rfl, rfl, hout⟩ := (ih (hnext hnew)).1 hrest
      exact ⟨field :: more, rfl, List.append_assoc _ _ _, hout⟩
    · rintro ⟨more, hmore, rfl, hout⟩
      cases more with
      | nil => cases hmore
      | cons field more =>
        obtain ⟨rfl, rfl⟩ := List.cons.inj hmore
        have hnew : field.1 ∉ fields.map Prod.fst := by
          intro hmem
          rw [List.map_append, List.nodup_append] at hout
          exact hout.2.2 _ hmem _ List.mem_cons_self rfl
        refine ⟨fields ++ [field], addField_eq_ok.2 ⟨field, rfl, hnew, rfl⟩, ?_⟩
        exact (ih (hnext hnew)).2 ⟨more, rfl, List.append_cons _ _ _, hout⟩

theorem keyValues_eq_ok {spec : List Char} {fields : FsFields} :
    keyValues spec = .ok fields ↔ ListedAs spec fields := by
  have hkeys : ((([] : FsFields).map Prod.fst)).Nodup := List.nodup_nil
  rw [keyValues, foldlM_addField hkeys]
  constructor
  · rintro ⟨more, hmore, rfl, hkeys⟩
    refine ⟨?_, ?_, hkeys, fun field hfield hcomma => ?_⟩
    · rw [← hmore, List.intercalate_splitOn]
    · rintro rfl
      exact List.splitOn_ne_nil ',' spec hmore
    · refine PathBuf.not_mem_of_mem_splitOn (hmore ▸ List.mem_map_of_mem hfield) ?_
      exact List.mem_append_right _ (List.mem_cons_of_mem _ hcomma)
  · intro h
    refine ⟨fields, ?_, rfl, h.keys⟩
    rw [h.text, List.splitOn_intercalate]
    · rintro text htext hcomma
      obtain ⟨field, hfield, rfl⟩ := List.mem_map.1 htext
      rcases List.mem_append.1 hcomma with hkey | hvalue
      · exact field.1.not_mem_text.2 hkey
      · rcases List.mem_cons.1 hvalue with hsign | hvalue
        · cases hsign
        · exact h.values field hfield hvalue
    · exact fun hnil => h.some (List.map_eq_nil_iff.1 hnil)

/-! ### The values -/

/-- The keys differ, so the first entry with a key is the only one. -/
theorem lookup_eq_some {α β : Type} [BEq α] [LawfulBEq α] {table : List (α × β)} {a : α} {b : β}
    (hkeys : (table.map Prod.fst).Nodup) : table.lookup a = some b ↔ (a, b) ∈ table := by
  induction table with
  | nil => simp
  | cons entry rest ih =>
    rw [List.map_cons, List.nodup_cons] at hkeys
    rw [List.lookup_cons, List.mem_cons]
    split
    · rename_i ha
      obtain rfl : a = entry.1 := eq_of_beq ha
      constructor
      · intro h
        exact .inl (Prod.ext rfl (Option.some.inj h).symm)
      · rintro (h | h)
        · rw [← h]
        · exact absurd (List.mem_map_of_mem h) hkeys.1
    · rename_i ha
      rw [ih hkeys.2]
      constructor
      · exact .inr
      · rintro (rfl | h)
        · simp at ha
        · exact h

theorem modeTexts_lookup (text : List Char) (mode : ShareMode) :
    modeTexts.lookup text = some mode ↔ (text, mode) ∈ modeTexts := by
  apply lookup_eq_some
  decide

theorem cacheTexts_lookup (text : List Char) (cache : CachePolicy) :
    cacheTexts.lookup text = some cache ↔ (text, cache) ∈ cacheTexts := by
  apply lookup_eq_some
  decide

theorem parseUnsigned_eq_some {max n : ℕ} {text : List Char} :
    parseUnsigned max text = some n ↔ Decimal max text n := by
  unfold parseUnsigned Decimal
  constructor
  · intro h
    dsimp only at h
    split_ifs at h with hsign hdigits
    · cases h
      refine ⟨text.tail, .inr ?_, hdigits.1, List.all_eq_true.1 hdigits.2.1, rfl, hdigits.2.2⟩
      exact (List.cons_head?_tail hsign).symm
    · cases h
      rename_i hdigits
      exact ⟨text, .inl rfl, hdigits.1, List.all_eq_true.1 hdigits.2.1, rfl, hdigits.2.2⟩
  · rintro ⟨digits, htext, hsome, hdigits, rfl, hmax⟩
    have hread : (if text.head? = some '+' then text.tail else text) = digits := by
      rcases htext with rfl | rfl
      · refine if_neg fun hplus => ?_
        exact absurd (hdigits '+' (List.mem_of_mem_head? hplus)) (by decide)
      · rfl
    simp only [hread]
    exact if_pos ⟨hsome, List.all_eq_true.2 hdigits, hmax⟩

namespace FsFields

variable {fields : FsFields} {key : FsKey}

theorem get_eq_some (hkeys : (fields.map Prod.fst).Nodup) {value : List Char} :
    fields.get key = some value ↔ (key, value) ∈ fields := lookup_eq_some hkeys

theorem get_eq_none : fields.get key = none ↔ fields.Lacks key := by
  rw [get, List.lookup_eq_none_iff]
  constructor
  · intro h value hmem
    exact bne_iff_ne.1 (h _ hmem) rfl
  · rintro h ⟨k, value⟩ hmem
    rw [bne_iff_ne]
    rintro rfl
    exact h value hmem

theorem other_eq_ok {keys : List FsKey} :
    fields.other keys = .ok () ↔ ∀ key ∈ keys, fields.Lacks key := by
  unfold other
  split
  case h_1 key hfind =>
    constructor
    · intro h
      cases h
    · intro h
      have hlacks : fields.get key = none := get_eq_none.2 (h key (List.mem_of_find?_eq_some hfind))
      have hsome : (fields.get key).isSome = true := by simpa using List.find?_some hfind
      rw [hlacks] at hsome
      cases hsome
  case h_2 hfind =>
    refine iff_of_true rfl fun key hkey => get_eq_none.1 ?_
    simpa using List.find?_eq_none.1 hfind key hkey

section
variable (hkeys : (fields.map Prod.fst).Nodup)
include hkeys

theorem filled_eq_some {value : List Char} :
    fields.filled key = some value ↔ (key, value) ∈ fields ∧ value ≠ [] := by
  rw [filled, Option.filter_eq_some_iff, get_eq_some hkeys]
  simp

theorem filled_eq_none : fields.filled key = none ↔ fields.Blank key := by
  constructor
  · intro h value hmem
    by_contra hvalue
    rw [(filled_eq_some hkeys).2 ⟨hmem, hvalue⟩] at h
    cases h
  · intro h
    rw [Option.eq_none_iff_forall_ne_some]
    intro value hvalue
    obtain ⟨hmem, hne⟩ := (filled_eq_some hkeys).1 hvalue
    exact hne (h value hmem)

theorem value_eq_ok {default a : α} {read : List Char → Option α} {Means : List Char → α → Prop}
    (hread : ∀ text a, read text = some a ↔ Means text a) :
    fields.value key default read = .ok a ↔ fields.Gives key default Means a := by
  unfold value Gives
  cases hget : fields.get key with
  | none =>
    have hlacks : fields.Lacks key := get_eq_none.1 hget
    constructor
    · intro h
      cases h
      exact .inr ⟨hlacks, rfl⟩
    · rintro (⟨text, hmem, -⟩ | ⟨-, rfl⟩)
      · exact absurd hmem (hlacks text)
      · rfl
  | some text =>
    have hmem : (key, text) ∈ fields := (get_eq_some hkeys).1 hget
    constructor
    · intro h
      dsimp only at h
      split at h
      · rename_i b hb
        cases h
        exact .inl ⟨text, hmem, (hread text a).1 hb⟩
      · cases h
    · rintro (⟨text', hmem', hmeans⟩ | ⟨hlacks, -⟩)
      · rw [(get_eq_some hkeys).2 hmem'] at hget
        cases hget
        simp only [(hread _ a).2 hmeans]
      · exact absurd hmem (hlacks text)

end

end FsFields

theorem FsConfig.validate_eq_ok {fs : FsConfig} :
    fs.validate = .ok () ↔
      ¬ BadTag fs.tag ∧ 1 ≤ fs.numQueues ∧ fs.queueSize.isPowerOfTwo ∧ fs.queueSize ≤ 32768 := by
  unfold FsConfig.validate maxQueueSize
  split_ifs with htag hnum hsize
  · simp [htag]
  · simp [hnum]
  · simp only [false_iff]
    rintro ⟨-, -, hpow, hle⟩
    rcases hsize with h | h
    · exact h hpow
    · omega
  · simp only [not_or, not_not, not_lt] at hsize
    exact iff_of_true rfl ⟨htag, by omega, hsize.1, hsize.2⟩

/-! ### The forms -/

namespace FsFields

variable {fields : FsFields} (hkeys : (fields.map Prod.fst).Nodup)
include hkeys

theorem socketForm_eq_ok {tag socket : List Char} {spec : FsSpec} :
    fields.socketForm tag socket = .ok spec ↔
      ∃ fs, spec = .socket fs ∧ fs.tag = tag ∧ fs.socket = socket ∧
        (∀ key ∈ [FsKey.readonly, .cache, .uid, .gid], fields.Lacks key) ∧
        fields.Gives .numQueues 1 (Decimal usizeMax) fs.numQueues ∧
        fields.Gives .queueSize 1024 (Decimal u16Max) fs.queueSize ∧ fs.validate = .ok () := by
  simp only [socketForm, bind_eq_ok, value_eq_ok hkeys fun _ _ => parseUnsigned_eq_some]
  constructor
  · rintro ⟨u, hother, numQueues, hnum, queueSize, hsize, u', hvalid, hspec⟩
    cases hspec
    exact ⟨_, rfl, rfl, rfl, other_eq_ok.1 hother, hnum, hsize, hvalid⟩
  · rintro ⟨fs, rfl, rfl, rfl, hother, hnum, hsize, hvalid⟩
    exact ⟨(), other_eq_ok.2 hother, _, hnum, _, hsize, (), hvalid, rfl⟩

theorem pathForm_eq_ok {tag path : List Char} {spec : FsSpec} :
    fields.pathForm tag path = .ok spec ↔
      ∃ share, spec = .share share ∧ share.tag = tag ∧ share.path = path ∧
        (∀ key ∈ [FsKey.numQueues, .queueSize], fields.Lacks key) ∧
        fields.Gives .readonly .readWrite (fun text mode => (text, mode) ∈ modeTexts) share.mode ∧
        fields.Gives .cache .auto (fun text cache => (text, cache) ∈ cacheTexts) share.cache ∧
        fields.Gives .uid 0 (Decimal u32Max) share.uid ∧
        fields.Gives .gid 0 (Decimal u32Max) share.gid := by
  simp only [pathForm, bind_eq_ok, value_eq_ok hkeys modeTexts_lookup,
    value_eq_ok hkeys cacheTexts_lookup, value_eq_ok hkeys fun _ _ => parseUnsigned_eq_some]
  constructor
  · rintro ⟨u, hother, mode, hmode, cache, hcache, uid, huid, gid, hgid, hspec⟩
    cases hspec
    exact ⟨_, rfl, rfl, rfl, other_eq_ok.1 hother, hmode, hcache, huid, hgid⟩
  · rintro ⟨share, rfl, rfl, rfl, hother, hmode, hcache, huid, hgid⟩
    exact ⟨(), other_eq_ok.2 hother, _, hmode, _, hcache, _, huid, _, hgid, rfl⟩

theorem describe_eq_ok {spec : FsSpec} : fields.describe = .ok spec ↔ fields.Describes spec := by
  unfold describe
  constructor
  · intro h
    split at h
    · cases h
    rename_i tag htag
    rw [get_eq_some hkeys] at htag
    split_ifs at h with hbad
    split at h
    · cases h
    · cases h
    · rename_i socket hpath hsocket
      rw [filled_eq_none hkeys] at hpath
      rw [filled_eq_some hkeys] at hsocket
      obtain ⟨fs, rfl, rfl, rfl, hother, hnum, hsize, hvalid⟩ := (socketForm_eq_ok hkeys).1 h
      obtain ⟨-, hone, hpow, hmax⟩ := FsConfig.validate_eq_ok.1 hvalid
      exact ⟨⟨htag, hbad⟩, hsocket, hpath, hother, ⟨hnum, hone⟩, hsize, hpow, hmax⟩
    · rename_i path hpath hsocket
      rw [filled_eq_some hkeys] at hpath
      rw [filled_eq_none hkeys] at hsocket
      obtain ⟨share, rfl, rfl, rfl, hother, hmode, hcache, huid, hgid⟩ := (pathForm_eq_ok hkeys).1 h
      exact ⟨⟨htag, hbad⟩, hpath, hsocket, hother, hmode, hcache, huid, hgid⟩
  · intro h
    cases spec with
    | socket fs =>
      obtain ⟨htag, hsocket, hpath, hother, hnum, hsize⟩ := h
      rw [(get_eq_some hkeys).2 htag.1, (filled_eq_some hkeys).2 hsocket,
        (filled_eq_none hkeys).2 hpath]
      simp only [if_neg htag.2]
      have hvalid := FsConfig.validate_eq_ok.2 ⟨htag.2, hnum.2, hsize.2⟩
      exact (socketForm_eq_ok hkeys).2 ⟨fs, rfl, rfl, rfl, hother, hnum.1, hsize.1, hvalid⟩
    | share share =>
      obtain ⟨htag, hpath, hsocket, hother, hmode, hcache, huid, hgid⟩ := h
      rw [(get_eq_some hkeys).2 htag.1, (filled_eq_some hkeys).2 hpath,
        (filled_eq_none hkeys).2 hsocket]
      simp only [if_neg htag.2]
      exact (pathForm_eq_ok hkeys).2 ⟨share, rfl, rfl, rfl, hother, hmode, hcache, huid, hgid⟩

end FsFields

/-- **The grammar of an export.**  `parse` accepts a text if and only if it is a list of distinct
fields that describe an export, and then returns that export. -/
theorem FsSpec.parse_grammar (text : List Char) (spec : FsSpec) :
    FsSpec.parse text = .ok spec ↔ ∃ fields, ListedAs text fields ∧ fields.Describes spec := by
  rw [FsSpec.parse, bind_eq_ok]
  constructor
  · rintro ⟨fields, hread, hspec⟩
    have hlisted : ListedAs text fields := keyValues_eq_ok.1 hread
    exact ⟨fields, hlisted, (FsFields.describe_eq_ok hlisted.keys).1 hspec⟩
  · rintro ⟨fields, hlisted, hspec⟩
    exact ⟨fields, keyValues_eq_ok.2 hlisted, (FsFields.describe_eq_ok hlisted.keys).2 hspec⟩

/-- A count that is not decimal digits is accepted for its plus sign, and an id that is decimal
digits is refused for its size. -/
theorem FsSpec.parse_signed_count :
    FsSpec.parse "tag=t,socket=s,num_queues=+2".toList =
        .ok (.socket ⟨['t'], ['s'], 2, 1024⟩) ∧ "+2".toList.all Char.isDigit = false ∧
      FsSpec.parse "tag=t,path=p,uid=4294967296".toList =
        .error (.badValue .uid "4294967296".toList) ∧
      "4294967296".toList.all Char.isDigit = true ∧
      FsSpec.parse "tag=t,path=,socket=s".toList = .ok (.socket ⟨['t'], ['s'], 1, 1024⟩) := by
  refine ⟨?_, ?_, ?_, ?_, ?_⟩ <;> decide +kernel

/-! ### Exports that overlap -/

/-- Why two exports are refused together. -/
inductive OverlapError where
  | sameDirectory (a b : FsShare)
  | nested (inner outer : FsShare)
  deriving DecidableEq

/-- What `check_export_overlap` says of two exports. -/
def overlapOf (resolve : List Char → PathBuf) (a b : FsShare) : Option OverlapError :=
  if a.mode = b.mode then none
  else if resolve a.path = resolve b.path then some (.sameDirectory a b)
  else if resolve b.path <+: resolve a.path then some (.nested a b)
  else if resolve a.path <+: resolve b.path then some (.nested b a)
  else none

/-- Each export against all after it.  `resolve` gives the components of the canonical path, or of
the path as it stands if that has none. -/
def checkExportOverlap (resolve : List Char → PathBuf) : List FsShare → Except OverlapError Unit
  | [] => .ok ()
  | a :: rest =>
    match rest.findSome? (overlapOf resolve a) with
    | some e => .error e
    | none => checkExportOverlap resolve rest

/-- Two exports give the same rights on every path below both. -/
def Agree (resolve : List Char → PathBuf) (a b : FsShare) : Prop :=
  ∀ p, resolve a.path <+: p → resolve b.path <+: p → a.mode = b.mode

theorem overlapOf_eq_none {resolve : List Char → PathBuf} {a b : FsShare} :
    overlapOf resolve a b = none ↔ Agree resolve a b := by
  unfold overlapOf
  split_ifs with hmode hsame hin hout
  · exact iff_of_true rfl fun _ _ _ => hmode
  · exact iff_of_false nofun fun h => hmode (h _ List.prefix_rfl (hsame ▸ List.prefix_rfl))
  · exact iff_of_false nofun fun h => hmode (h _ List.prefix_rfl hin)
  · exact iff_of_false nofun fun h => hmode (h _ hout List.prefix_rfl)
  · -- of two directories above one path, one is above the other
    refine iff_of_true rfl fun p ha hb => ?_
    rcases List.prefix_or_prefix_of_prefix ha hb with h | h
    · exact absurd h hout
    · exact absurd h hin

theorem checkExportOverlap_eq_ok {resolve : List Char → PathBuf} {shares : List FsShare} :
    checkExportOverlap resolve shares = .ok () ↔ shares.Pairwise (Agree resolve) := by
  induction shares with
  | nil => exact iff_of_true rfl .nil
  | cons a rest ih =>
    rw [checkExportOverlap, List.pairwise_cons, ← ih]
    split
    · next e he =>
      obtain ⟨b, hb, hover⟩ := List.exists_of_findSome?_eq_some he
      refine iff_of_false nofun fun h => ?_
      rw [overlapOf_eq_none.mpr (h.1 b hb)] at hover
      cases hover
    · next hnone =>
      rw [List.findSome?_eq_none_iff] at hnone
      exact ⟨fun h => ⟨fun b hb => overlapOf_eq_none.mp (hnone b hb), h⟩, And.right⟩

/-- **A read-only export is read-only.**  The exports are accepted if and only if every host path
that is at or below two of them is writable through both or through neither. -/
theorem checkExportOverlap_accepts (resolve : List Char → PathBuf) (shares : List FsShare) :
    checkExportOverlap resolve shares = .ok () ↔
      ∀ a ∈ shares, ∀ b ∈ shares, ∀ p, resolve a.path <+: p → resolve b.path <+: p →
        a.mode = b.mode := by
  rw [checkExportOverlap_eq_ok]
  constructor
  · intro h a ha b hb
    have hsymm : Std.Symm (Agree resolve) := ⟨fun a b hab p hb ha => (hab p ha hb).symm⟩
    exact h.forall_of_forall (fun a _ _ _ _ => rfl) ha hb
  · exact fun h => List.pairwise_of_forall_mem_list h
