/-
The Seatbelt profile a VMM on macOS confines itself with (`policy_for` of `sandbox::seatbelt`).

The profile is a text of forms.  Each export adds a rule that names its path, which the caller of
the VMM chose; a path that is not UTF-8 or holds a control character is refused.

* `policyFor_forms` — what is read back from a policy is the profile, one rule for each export, with
  exactly its path and rights, and the rule to sync volumes if one of them is writable.
-/
import HviVmm.SForms

open SForms

namespace Seatbelt

/-- `PROFILE`. -/
def profile : String := "(version 1)
;; hvi VMM confinement -- see src/sandbox/seatbelt.rs for the reasoning behind each line.
;;
;; Installed after the VM is built and every host resource is already open, and
;; before any guest I/O is serviced. Seatbelt polices acquiring resources rather
;; than using descriptors already held, so the VMM keeps working on what it has
;; and can obtain nothing new.
;;
;; sandbox_init(3) is formally deprecated (10.8) and still the mechanism in
;; practice (Chrome, sandbox-exec). Re-prove this profile per OS release:
;; `hvi sandbox-selftest`.
(deny default)

;; Restoring the user's terminal on exit runs after this point. Opening a tty
;; stays denied, so this only ever applies to a descriptor already inherited,
;; and macOS refuses TIOCSTI on its own account.
(allow file-ioctl (regex #\"^/dev/tty\"))
"

/-- `FSIOC_SYNC_VOLUME`. -/
def fsiocSyncVolume : ℕ := 0x80044101

inductive PolicyError where
  | notUtf8
  | controlCharacter
  deriving DecidableEq, Repr

def PolicyError.text : PolicyError → String
  | notUtf8 => "virtio-fs export path is not valid UTF-8 for Seatbelt"
  | controlCharacter => "virtio-fs export path contains a control character"

/-- `Path::to_str`. -/
def toStr (path : List UInt8) : Option (List Char) :=
  (String.fromUTF8? ⟨path.toArray⟩).map String.toList

/-- `char::is_control`. -/
def isControl (c : Char) : Bool := c.toNat < 0x20 || (0x7f ≤ c.toNat && c.toNat < 0xa0)

/-- The rule for an export, up to its path. -/
def exportHead (writable : Bool) : String :=
  if writable then
    "\n;; virtio-fs may read and mutate only below this canonical writable export.\n(allow file-read* file-write* (subpath \""
  else
    "\n;; virtio-fs may acquire files only below this canonical read-only export.\n(allow file-read* (subpath \""

def exportRule (root : List Char) (writable : Bool) : List Char :=
  (exportHead writable).toList ++ escaped root ++ "\"))\n".toList

/-- The rule to sync a volume, up to the command. -/
def syncHead : String :=
  "\n;; virtio-fs SYNCFS: sync a volume (FSIOC_SYNC_VOLUME), and no other fsctl.\n(allow system-fsctl (fsctl-command "

def syncRule : List Char := syncHead.toList ++ Nat.toDigits 10 fsiocSyncVolume ++ "))\n".toList

/-- Adds the rules for the exports to a policy. -/
def policyFrom (policy : List Char) (anyWritable : Bool) :
    List (List UInt8 × Bool) → Except PolicyError (List Char)
  | [] => .ok (if anyWritable then policy ++ syncRule else policy)
  | (root, writable) :: roots =>
    match toStr root with
    | none => .error .notUtf8
    | some root =>
      if root.any isControl then .error .controlCharacter
      else policyFrom (policy ++ exportRule root writable) (anyWritable || writable) roots

def policyFor (roots : List (List UInt8 × Bool)) : Except PolicyError (List Char) :=
  policyFrom profile.toList false roots

/-! ### What is read back -/

def word (text : String) : Form := .atom text.toList

/-- The forms of the profile. -/
def profileForms : List Form :=
  [.list [word "version", word "1"], .list [word "deny", word "default"],
    .list [word "allow", word "file-ioctl",
      .list [word "regex", word "#", .str "^/dev/tty".toList]]]

def rights (writable : Bool) : List Form :=
  [word "allow", word "file-read*"] ++ if writable then [word "file-write*"] else []

/-- Allows reading below a path, and writing if the export is writable. -/
def exportForm (root : List Char) (writable : Bool) : Form :=
  .list (rights writable ++ [.list [word "subpath", .str root]])

def syncForm : Form :=
  .list [word "allow", word "system-fsctl", .list [word "fsctl-command", word "2147762433"]]

-- a literal is expanded into its characters before the reader is run on it
set_option maxRecDepth 20000 in
theorem feed_profile : Reader.feed {} profile.toList = some { forms := profileForms } := by
  have htext : profile.toList = _ := String.toList_ofList
  rw [htext]
  decide +kernel

theorem feed_exportHead (writable : Bool) :
    Reader.feed {} (exportHead writable).toList =
      some ⟨.str [], [], [[word "subpath"], rights writable]⟩ := by
  cases writable with
  | true =>
    have htext : (exportHead true).toList = _ := String.toList_ofList
    rw [htext]
    decide +kernel
  | false =>
    have htext : (exportHead false).toList = _ := String.toList_ofList
    rw [htext]
    decide +kernel

/-- **A rule is read as one form, whatever the path.** -/
theorem feed_exportRule (forms : List Form) (root : List Char) (writable : Bool) :
    Reader.feed { forms } (exportRule root writable) =
      some { forms := forms ++ [exportForm root writable] } := by
  have hhead : Reader.feed { forms } (exportHead writable).toList =
      some ⟨.str [], forms, [[word "subpath"], rights writable]⟩ := by
    have h := feed_after forms (feed_exportHead writable)
    simp only [Reader.after, List.append_nil] at h
    exact h
  have hpath : Reader.feed ⟨.str [], forms, [[word "subpath"], rights writable]⟩ (escaped root) =
      some ⟨.str ([] ++ root), forms, [[word "subpath"], rights writable]⟩ := feed_escaped rfl
  rw [exportRule, List.append_assoc, feed_append hhead, feed_append hpath]
  rfl

theorem feed_syncRule (forms : List Form) :
    Reader.feed { forms } syncRule = some { forms := forms ++ [syncForm] } := by
  have hrule : Reader.feed {} syncRule = some { forms := [syncForm] } := by
    have htext : syncHead.toList = _ := String.toList_ofList
    rw [syncRule, htext]
    decide +kernel
  have h := feed_after forms hrule
  simp only [Reader.after, List.append_nil] at h
  exact h

/-- The form of an export, whose path is the text of the rule. -/
def exportForms (roots : List (List UInt8 × Bool)) : List Form :=
  roots.map fun e => exportForm ((toStr e.1).getD []) e.2

theorem policyFrom_forms {policy text : List Char} {anyWritable : Bool} {forms : List Form}
    {roots : List (List UInt8 × Bool)} (hpolicy : Reader.feed {} policy = some { forms })
    (h : policyFrom policy anyWritable roots = .ok text) :
    (∀ e ∈ roots, (toStr e.1).isSome) ∧
      readForms text = some (forms ++ exportForms roots ++
        if anyWritable || roots.any Prod.snd then [syncForm] else []) := by
  induction roots generalizing policy anyWritable forms with
  | nil =>
    cases h
    refine ⟨by simp, ?_⟩
    cases anyWritable with
    | true =>
      rw [readForms, if_pos rfl, feed_append hpolicy, feed_syncRule]
      simp [exportForms, Reader.finish]
    | false =>
      rw [readForms, if_neg Bool.false_ne_true, hpolicy]
      simp [exportForms, Reader.finish]
  | cons e roots ih =>
    obtain ⟨root, writable⟩ := e
    rw [policyFrom] at h
    cases hroot : toStr root with
    | none =>
      rw [hroot] at h
      cases h
    | some chars =>
      rw [hroot] at h
      dsimp only at h
      split at h
      · cases h
      · have hrule : Reader.feed {} (policy ++ exportRule chars writable) =
            some { forms := forms ++ [exportForm chars writable] } := by
          rw [feed_append hpolicy, feed_exportRule]
        obtain ⟨hall, hread⟩ := ih hrule h
        refine ⟨?_, ?_⟩
        · intro e he
          rcases List.mem_cons.1 he with rfl | hrest
          · simp [hroot]
          · exact hall e hrest
        · rw [hread, Bool.or_assoc, List.any_cons]
          simp [exportForms, hroot]

/-- **A policy holds the exports and nothing else.**  Read back, an accepted policy is the profile's
forms, then one form for each export in order, whose string is the export's path and which grants
writes if and only if the export is writable, then the form for syncing volumes if and only if some
export is writable. -/
theorem policyFor_forms (roots : List (List UInt8 × Bool)) (text : List Char)
    (h : policyFor roots = .ok text) :
    readForms profile.toList = some profileForms ∧ (∀ e ∈ roots, (toStr e.1).isSome) ∧
      readForms text = some (profileForms ++
        roots.map (fun e => exportForm ((toStr e.1).getD []) e.2) ++
          if roots.any Prod.snd then [syncForm] else []) := by
  obtain ⟨hutf8, hread⟩ := policyFrom_forms feed_profile h
  refine ⟨?_, hutf8, ?_⟩
  · rw [readForms, feed_profile]
    rfl
  · rw [hread, Bool.false_or]
    rfl

/-- A path with a quote, a backslash and a parenthesis. -/
theorem policyFor_forms_quote :
    ∃ text, policyFor [([0x22, 0x5c, 0x29], true)] = .ok text ∧
      readForms text = some (profileForms ++ [exportForm ['"', '\\', ')'] true] ++ [syncForm]) := by
  have hpath : toStr [0x22, 0x5c, 0x29] = some ['"', '\\', ')'] := by decide +kernel
  have htext : policyFor [([0x22, 0x5c, 0x29], true)] =
      .ok (profile.toList ++ exportRule ['"', '\\', ')'] true ++ syncRule) := by
    rw [policyFor, policyFrom, hpath]
    rfl
  obtain ⟨-, -, hread⟩ := policyFor_forms _ _ htext
  refine ⟨_, htext, ?_⟩
  rw [hread, List.map_singleton, hpath]
  rfl

end Seatbelt
