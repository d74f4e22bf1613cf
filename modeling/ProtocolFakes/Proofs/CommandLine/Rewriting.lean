import ProtocolFakes.CommandLine.SelectorCommand
import ProtocolFakes.Proofs.Disk.Change
import ProtocolFakes.Proofs.Protocol.MethodAt
import ProtocolFakes.Proofs.Selector.WriteBack
import ProtocolFakes.Proofs.TextEdit

/-!
# What the selector command changes

The command goes through many steps before it writes: the location and the edit are read, then
the file, the line in it, the method there and its selector, and the edit is made.  What it
takes for all of them to succeed is a `Rewriting`.  Only after the last of them is the disk
touched, so a command that fails leaves it as it was, and so does one that is not asked to
write.

What is written is the old text with one part replaced, where the selector stands
(`TextEdit.applyTo?_eq_some_iff`).  Edits keep the range of a selector, and a selector is read
from the tokens of a span, which stand in it; so the part lies within the method at the line.

Nothing is assumed of the outline.  A span that is no part of the text has no tokens, and no
method is read from none.

Main theorem: `rewrites_one_range`.
-/

namespace ProtocolFakes

set_option autoImplicit false

open Text (byteLength)

/-! ## The method at a line -/

/-- One edit that may be missing is a run of edits. -/
theorem Selector.applyAll_toList_eq_ok_iff {s e : Selector} (edit : Option SelectorEdit) :
    s.applyAll edit.toList = .ok e ↔
      match edit with
      | none => s = e
      | some edit => s.apply edit = .ok e := by
  cases edit with
  | none => simp [applyAll, pure, Except.pure]
  | some edit =>
      simp only [applyAll, Option.toList_some, List.foldlM_cons, List.foldlM_nil]
      cases s.apply edit <;> simp [bind, Except.bind, pure, Except.pure]

namespace SelectorRequest

variable {outline : String → Outline}

theorem editedMethod_eq_ok_iff {path : String} {line : Nat} {edit : Option SelectorEdit}
    {source : String} {e : EditedMethod} :
    editedMethod outline path line edit source = .ok e ↔
      e.path = path ∧ e.line = line ∧ e.source = source ∧ ∃ offset span declared,
        Text.lineContentOffset? source.toList line = some offset ∧
        (outline source).methodAt? offset = some span ∧
        Selector.ofTokens (span.tokens source 0) = .ok (e.kind, declared) ∧
        declared.applyAll edit.toList = .ok e.selector := by
  unfold editedMethod
  cases Text.lineContentOffset? source.toList line with
  | none => simp
  | some offset =>
      simp only [bind_eq_ok_iff, mapError_eq_ok_iff, Outline.readMethodAt_eq_ok_iff,
        Span.method_eq_ok_iff]
      constructor
      · rintro ⟨m, ⟨span, spans, read, -⟩, made⟩
        cases edit with
        | none =>
            cases made
            exact ⟨rfl, rfl, rfl, offset, span, m.selector, rfl, spans, read, rfl⟩
        | some edit =>
            obtain ⟨selector, applied, made⟩ := bind_eq_ok_iff.1 made
            cases made
            exact ⟨rfl, rfl, rfl, offset, span, m.selector, rfl, spans, read,
              (Selector.applyAll_toList_eq_ok_iff _).2 (mapError_eq_ok_iff.1 applied)⟩
      · rintro ⟨rfl, rfl, rfl, _, span, declared, same, spans, read, edited⟩
        obtain rfl := Option.some.inj same
        refine ⟨⟨e.kind, declared, span.range 0⟩, ⟨span, spans, read, rfl⟩, ?_⟩
        rw [Selector.applyAll_toList_eq_ok_iff] at edited
        cases edit with
        | none =>
            dsimp only at edited
            subst edited
            rfl
        | some edit =>
            exact bind_eq_ok_iff.2 ⟨e.selector, mapError_eq_ok_iff.2 edited, rfl⟩

/-! ## One run -/

/-- The method that a request is about, edited as asked, on a disk. -/
def foundOn (outline : String → Outline) (r : SelectorRequest) (d : Disk) :
    Except CommandError EditedMethod := do
  let (path, line, edit) ← r.operands
  let source ← (d.readText path).mapError (.unreadableFile path)
  editedMethod outline path line edit source

theorem foundOn_eq_ok_iff {r : SelectorRequest} {d : Disk} {e : EditedMethod} :
    r.foundOn outline d = .ok e ↔ ∃ path line edit source,
      r.operands = .ok (path, line, edit) ∧ d.readText path = .ok source ∧
      editedMethod outline path line edit source = .ok e := by
  simp only [foundOn, bind_eq_ok_iff, mapError_eq_ok_iff, Prod.exists]
  constructor
  · rintro ⟨path, line, edit, operands, source, read, found⟩
    exact ⟨path, line, edit, source, operands, read, found⟩
  · rintro ⟨path, line, edit, source, operands, read, found⟩
    exact ⟨path, line, edit, operands, source, read, found⟩

/-- Finding a method leaves the disk as it is. -/
theorem run_find (r : SelectorRequest) (d : Disk) :
    (r.find outline Disk.fileSystem).run d = (r.foundOn outline d, d) := by
  unfold find foundOn
  cases r.operands with
  | error e => rfl
  | ok operands =>
      obtain ⟨path, line, edit⟩ := operands
      have asked : (Disk.fileSystem.readText path).run d = (d.readText path, d) := rfl
      dsimp only
      rw [Disk.run_bind, asked]
      change _ = ((d.readText path).mapError _ >>= editedMethod outline path line edit, d)
      cases d.readText path <;> rfl

/-- **Writing comes last**: every failure leaves the disk as it is. -/
theorem run_runWith (r : SelectorRequest) (d : Disk) :
    (r.runWith outline Disk.fileSystem).run d =
      match r.foundOn outline d with
      | .error defect => (.failed defect [], d)
      | .ok e =>
          if r.write then
            match e.patched with
            | .error defect => (.failed defect (r.resultLines e), d)
            | .ok text =>
                match d.writeFile e.path (.text text) with
                | .error cause =>
                    (.failed (.unwritableFile e.path cause) (r.resultLines e), d)
                | .ok d' => (.printed (r.resultLines e ++ r.confirm e), d')
          else (.printed (r.resultLines e), d) := by
  unfold runWith
  rw [Disk.run_bind, run_find]
  cases r.foundOn outline d with
  | error defect => rfl
  | ok e =>
      dsimp only
      split
      · cases e.patched with
        | error defect => rfl
        | ok text =>
            dsimp only
            change (Disk.change _ >>= _).run d = _
            rw [Disk.run_change_bind]
            cases d.writeFile e.path (.text text) <;> rfl
      · rfl

/-- The run wrote to the disk, or left it alone for want of success or of being asked. -/
inductive Ends (outline : String → Outline) (r : SelectorRequest) (d : Disk) :
    Outcome → Disk → Prop where
  | silent {outcome : Outcome} (reason : outcome.status ≠ 0 ∨ r.write = false) :
      Ends outline r d outcome d
  | written {e : EditedMethod} {text : String} {d' : Disk} (asked : r.write = true)
      (found : r.foundOn outline d = .ok e) (patched : e.patched = .ok text)
      (wrote : d.writeFile e.path (.text text) = .ok d') :
      Ends outline r d (.printed (r.resultLines e ++ r.confirm e)) d'

theorem ends_run (outline : String → Outline) (r : SelectorRequest) (d : Disk) :
    Ends outline r d ((r.runWith outline Disk.fileSystem).run d).1
      ((r.runWith outline Disk.fileSystem).run d).2 := by
  rw [run_runWith]
  cases found : r.foundOn outline d with
  | error defect => exact .silent (.inl nofun)
  | ok e =>
      by_cases asked : r.write = true
      · dsimp only
        rw [if_pos asked]
        cases patched : e.patched with
        | error defect => exact .silent (.inl nofun)
        | ok text =>
            dsimp only
            cases wrote : d.writeFile e.path (.text text) with
            | error cause => exact .silent (.inl nofun)
            | ok d' => exact .written asked found patched wrote
      · dsimp only
        rw [if_neg asked]
        exact .silent (.inr (Bool.not_eq_true _ ▸ asked))

/-! ## Rewriting a file -/

/-- All steps of a request that writes to a disk, each of them successful. -/
structure Rewriting (outline : String → Outline) (r : SelectorRequest) (d : Disk) where
  path : String
  line : Nat
  edit : Option SelectorEdit
  /-- The location names a path and a line, and the other arguments make up an edit or none. -/
  operands : r.operands = .ok (path, line, edit)
  place : Place
  led : d.place path.toList = .ok place
  source : String
  /-- The path leads to a file that holds a text. -/
  holds : d.fileAt? place = some (.text source)
  offset : Nat
  /-- The line has a character that is not blank; this is the first. -/
  onLine : Text.lineContentOffset? source.toList line = some offset
  span : Span
  /-- The character stands in a method. -/
  spans : (outline source).methodAt? offset = some span
  kind : MethodKind
  declared : Selector
  /-- The tokens of the method read as a declaration. -/
  reads : Selector.ofTokens (span.tokens source 0) = .ok (kind, declared)
  selector : Selector
  /-- The edit succeeds; without one, the selector stays the declared one. -/
  edited : declared.applyAll edit.toList = .ok selector
  before : String
  old : String
  after : String
  /-- The selector stands in the file. -/
  split : source = before ++ old ++ after
  location : byteLength before.toList = declared.range.location
  length : byteLength old.toList = declared.range.length
  /-- The file can be written. -/
  accepts : d.refuses place = none

namespace Rewriting

variable {r : SelectorRequest} {d : Disk} (w : Rewriting outline r d)

/-- The edited method of a rewriting. -/
def method : EditedMethod := ⟨w.path, w.line, w.source, w.kind, w.selector⟩

/-- The text of the file after the rewriting. -/
def text : String := w.before ++ w.selector.declaration w.kind ++ w.after

theorem foundOn_eq : r.foundOn outline d = .ok w.method :=
  foundOn_eq_ok_iff.2 ⟨w.path, w.line, w.edit, w.source, w.operands,
    Disk.readText_eq_ok_iff.2 ⟨w.place, w.led, w.holds⟩,
    editedMethod_eq_ok_iff.2 ⟨rfl, rfl, rfl, w.offset, w.span, w.declared, w.onLine, w.spans,
      w.reads, w.edited⟩⟩

theorem writeFile_eq :
    d.writeFile w.path (.text w.text) = .ok (d.put w.place (.file (.text w.text))) := by
  refine Disk.writeFile_eq_ok_iff.2 ⟨w.place, w.led, ?_, w.accepts, rfl⟩
  rw [Disk.fileAt?_eq_some_iff.1 w.holds]
  nofun

/-- The selector stands where the declared one stood. -/
theorem range_eq : w.selector.range = w.declared.range := (Selector.applyAll_keeps w.edited).2

variable (fits : byteLength w.source.toList ≤ maxOffset)
include fits

theorem range_fits : w.declared.range.Fits := by
  rw [w.split] at fits
  simp only [String.toList_append, Text.byteLength_append, w.location, w.length] at fits
  rw [SourceRange.Fits]
  omega

theorem patched_eq : w.method.patched = .ok w.text := by
  have applied : (w.selector.replacement w.kind).applyTo? w.source = some w.text := by
    refine TextEdit.applyTo?_eq_some_iff.2 ⟨?_, w.before, w.old, w.after, w.split, ?_, ?_, rfl⟩
    · rw [Selector.replacement, w.range_eq]
      exact w.range_fits fits
    · rw [Selector.replacement, w.range_eq, w.location]
    · rw [Selector.replacement, w.range_eq, w.length]
  simp only [EditedMethod.patched, method, applied]

/-- A rewriting takes place when it is asked for. -/
theorem run_eq (asked : r.write = true) :
    (r.runWith outline Disk.fileSystem).run d =
      (.printed (r.resultLines w.method ++ r.confirm w.method),
        d.put w.place (.file (.text w.text))) := by
  have wrote : d.writeFile w.method.path (.text w.text) = _ := w.writeFile_eq
  rw [run_runWith, w.foundOn_eq]
  dsimp only
  rw [if_pos asked, w.patched_eq fits]
  dsimp only
  rw [wrote]

/-- **What is replaced lies in the method at the line.** -/
theorem within_span : w.span.start ≤ w.declared.range.location ∧
    w.declared.range.location + w.declared.range.length ≤ w.span.stop := by
  obtain ⟨mid, cut⟩ := Span.exists_cut_of_ofTokens w.reads
  rw [← SourceRange.stop_of_fits (w.range_fits fits)]
  refine Selector.bounds_of_ofTokens w.reads ?_
  intro t member
  simpa only [Nat.zero_add] using Span.bounds_of_mem_tokens cut (by omega) member

end Rewriting

/-- What a request has written is a rewriting. -/
theorem exists_rewriting {r : SelectorRequest} {d d' : Disk} {e : EditedMethod} {text : String}
    (found : r.foundOn outline d = .ok e) (patched : e.patched = .ok text)
    (wrote : d.writeFile e.path (.text text) = .ok d') : Nonempty (Rewriting outline r d) := by
  obtain ⟨path, line, edit, source, operands, read, found⟩ := foundOn_eq_ok_iff.1 found
  obtain ⟨rfl, rfl, rfl, offset, span, declared, onLine, spans, reads, edited⟩ :=
    editedMethod_eq_ok_iff.1 found
  obtain ⟨place, led, holds⟩ := Disk.readText_eq_ok_iff.1 read
  obtain ⟨place', led', -, accepts, -⟩ := Disk.writeFile_eq_ok_iff.1 wrote
  obtain rfl := Except.ok.inj (led.symm.trans led')
  have applied : (e.selector.replacement e.kind).applyTo? e.source = some text := by
    unfold EditedMethod.patched at patched
    split at patched
    · rename_i applied
      rw [applied, Except.ok.inj patched]
    · cases patched
  obtain ⟨-, before, old, after, split, location, length, -⟩ :=
    TextEdit.applyTo?_eq_some_iff.1 applied
  rw [Selector.replacement, (Selector.applyAll_keeps edited).2] at location length
  exact ⟨⟨e.path, e.line, edit, operands, place, led, e.source, holds, offset, onLine, span, spans,
    e.kind, declared, reads, e.selector, edited, before, old, after, split, location, length,
    accepts⟩⟩

/-- Lines that show a declaration: a record with a field for it, or a line with it among
others. -/
inductive Shows (declaration : String) : Bool → List String → Prop where
  | record {members : List (String × Json)}
      (field : ("declaration", Json.text declaration) ∈ members) :
      Shows declaration true [(Json.record members).pretty]
  | lines {lines : List String} (line : "   📝 " ++ declaration ++ ";" ∈ lines) :
      Shows declaration false lines

/-- The lines of a command that has written show the declaration. -/
theorem shows_declaration (r : SelectorRequest) (e : EditedMethod) :
    Shows (e.selector.declaration e.kind) r.json (r.resultLines e ++ r.confirm e) := by
  unfold resultLines confirm
  cases r.json with
  | true => exact .record (by simp)
  | false => exact .lines (by simp [Selector.describe])

/-- **The selector command changes one range of one file, or nothing.** Run it on any disk, with
any outlines.

* If the command fails, or is not asked to write, the disk stays as it was.
* Asked to write, it succeeds exactly when each of its steps does; the file is taken to be no
  longer than offsets reach.  It has then printed the declaration and put it where the selector
  stood, a part of the method at the line; the rest of the file is what it was, and so is every
  other place of the disk. -/
theorem rewrites_one_range (outline : String → Outline) (r : SelectorRequest) {d d' : Disk}
    {outcome : Outcome} (ran : (r.runWith outline Disk.fileSystem).run d = (outcome, d')) :
    (outcome.status ≠ 0 ∨ r.write = false → d' = d) ∧
    (r.write = true →
      (outcome.status = 0 → Nonempty (Rewriting outline r d)) ∧
      ∀ w : Rewriting outline r d, byteLength w.source.toList ≤ maxOffset →
        outcome.status = 0 ∧
        w.span.start ≤ w.declared.range.location ∧
        w.declared.range.location + w.declared.range.length ≤ w.span.stop ∧
        (∃ lines, Shows (w.selector.declaration w.kind) r.json lines ∧
          outcome.output = Text.ofLines lines) ∧
        d'.fileAt? w.place =
          some (.text (w.before ++ w.selector.declaration w.kind ++ w.after)) ∧
        ∀ other, other ≠ w.place → d'.entryAt? other = d.entryAt? other) := by
  have ends : Ends outline r d outcome d' := by
    have ends := ends_run outline r d
    rwa [ran] at ends
  refine ⟨?_, fun asked => ⟨?_, ?_⟩⟩
  · intro reason
    cases ends with
    | silent => rfl
    | written asked => simp [Outcome.printed, asked] at reason
  · intro success
    cases ends with
    | silent reason => simp [success, asked] at reason
    | written _ found patched wrote => exact exists_rewriting found patched wrote
  · intro w fits
    obtain ⟨rfl, rfl⟩ := Prod.mk.inj (ran.symm.trans (w.run_eq fits asked))
    obtain ⟨lower, upper⟩ := w.within_span fits
    have stood := Disk.fileAt?_eq_some_iff.1 w.holds
    have below : w.place ≠ [] := Disk.ne_root_of_entryAt?_ne (by rw [stood]; nofun)
    refine ⟨rfl, lower, upper, ⟨_, shows_declaration r w.method, rfl⟩, ?_, ?_⟩
    · exact Disk.fileAt?_eq_some_iff.2 (Disk.entryAt?_put_same d _ below)
    · intro other elsewhere
      exact Disk.entryAt?_put_other d _ elsewhere

/-- The place of a header in the working directory. -/
def greeterPlace : Place := ["Greeter.h".toList]

/-- A header that declares one method. -/
def greeterHeader : String := "@protocol Greeter\n  - (void)name:(id)n age:(int)age;\n@end\n"

/-- A disk with this header. -/
def greeterDisk : Disk where
  entries := [(greeterPlace, .file (.text greeterHeader))]

/-- The request to swap the two keywords of the method. -/
def swapRequest : SelectorRequest where
  location := "Greeter.h:2"
  edit := { swap := some [0, 1] }
  write := true

/-- Swapping its keywords rewrites the method in its line, and the disk has no other change. -/
theorem rewrites_one_range_swap :
    Nonempty (Rewriting Outline.ofSource swapRequest greeterDisk) ∧
    ∀ w : Rewriting Outline.ofSource swapRequest greeterDisk,
      w.place = greeterPlace ∧ byteLength w.source.toList ≤ maxOffset ∧
      w.before ++ w.selector.declaration w.kind ++ w.after =
        "@protocol Greeter\n  - (void)age:(int)age name:(id)n;\n@end\n" ∧
      ∀ other, other ≠ greeterPlace →
        ((swapRequest.run Disk.fileSystem).run greeterDisk).2.entryAt? other =
          greeterDisk.entryAt? other := by
  have operands : swapRequest.operands = .ok ("Greeter.h", 1, some (.swap 0 1)) := by
    decide +kernel
  have written : ((swapRequest.run Disk.fileSystem).run greeterDisk).2.fileAt? greeterPlace =
      some (.text "@protocol Greeter\n  - (void)age:(int)age name:(id)n;\n@end\n") := by
    decide +kernel
  obtain ⟨-, rewrites⟩ := rewrites_one_range Outline.ofSource swapRequest Prod.mk.eta.symm
  obtain ⟨succeeded, every⟩ := rewrites rfl
  refine ⟨succeeded (by decide +kernel), fun w => ?_⟩
  have path : w.path = "Greeter.h" :=
    congrArg Prod.fst (Except.ok.inj (w.operands.symm.trans operands))
  have led : greeterDisk.place w.path.toList = .ok greeterPlace := by
    rw [path]
    decide +kernel
  have here : w.place = greeterPlace := Except.ok.inj (w.led.symm.trans led)
  have header : greeterDisk.fileAt? w.place = some (.text greeterHeader) := by
    rw [here]
    decide +kernel
  have source : w.source = greeterHeader :=
    FileContent.text.inj (Option.some.inj (w.holds.symm.trans header))
  have fits : byteLength w.source.toList ≤ maxOffset := by
    rw [source]
    decide +kernel
  obtain ⟨-, -, -, -, file, others⟩ := every w fits
  rw [here] at file others
  exact ⟨here, fits, FileContent.text.inj (Option.some.inj (file.symm.trans written)), others⟩

end SelectorRequest

end ProtocolFakes
