import ProtocolFakes.Config.File
import ProtocolFakes.Proofs.Disk.Change
import ProtocolFakes.Proofs.Json.Pretty
import ProtocolFakes.Proofs.Json.Record

/-!
# Configurations read back

The record of a configuration gives the configuration back, section by section
(`Config.ofJson?_toJson`), and so does its text, if the configuration has no defect
(`ofText_toText`).  Whatever a text is, a configuration that is read from it has none
(`validate_of_ofText`).

Main theorem: `load_of_save`, the same for files on a disk.
-/

namespace ProtocolFakes

set_option autoImplicit false

open Json

/-! ## Records -/

theorem FakeConfig.ofJson?_toJson (c : FakeConfig) : ofJson? c.toJson = some c := by
  have fields : c.toJson.fields? fieldNames = some
      [some (.text c.classPrefix), some (.text c.superclass), some (.bool c.assumeNonnull),
        some (.texts c.extraImports)] :=
    fields?_record (show fieldNames.Nodup by decide)
  rw [ofJson?, fields]
  simp only [bind, Option.bind, optional?, text?, text, bool?, texts?_texts]
  rfl

theorem OutputConfig.ofJson?_toJson (c : OutputConfig) : ofJson? c.toJson = some c := by
  have fields : c.toJson.fields? fieldNames = some
      [some (.text c.directory), some (.bool c.overwrite)] :=
    fields?_record (show fieldNames.Nodup by decide)
  rw [ofJson?, fields]
  rfl

theorem plain_texts (ss : List String) : Plain (texts ss) := by
  refine .array fun v member => ?_
  obtain ⟨s, -, rfl⟩ := List.mem_map.1 member
  exact .text s

theorem FakeConfig.plain_toJson (c : FakeConfig) : Plain c.toJson := by
  refine .record ?_
  simp only [List.forall_mem_cons]
  exact ⟨.text _, .text _, .bool _, plain_texts _, nofun⟩

theorem OutputConfig.plain_toJson (c : OutputConfig) : Plain c.toJson := by
  refine .record ?_
  simp only [List.forall_mem_cons]
  exact ⟨.text _, .bool _, nofun⟩

namespace Config

/-- **A configuration reads back from its record.** -/
theorem ofJson?_toJson (c : Config) : ofJson? c.toJson = some c := by
  have fields : c.toJson.fields? fieldNames = some [some c.fake.toJson, some c.output.toJson] :=
    fields?_record (show fieldNames.Nodup by decide)
  rw [ofJson?, fields]
  simp only [bind, Option.bind, optional?, FakeConfig.ofJson?_toJson, OutputConfig.ofJson?_toJson]
  rfl

theorem plain_toJson (c : Config) : Plain c.toJson := by
  refine .record ?_
  simp only [List.forall_mem_cons]
  exact ⟨c.fake.plain_toJson, c.output.plain_toJson, nofun⟩

/-! ## Texts -/

/-- The text of a configuration is refused for the defects of the configuration, and only
for them. -/
theorem ofText_toText (c : Config) : ofText c.toText = c.validate.map fun _ => c := by
  rw [ofText, toText, read?_pretty c.plain_toJson, Option.bind_some, ofJson?_toJson]

/-- **What is read has no defect.** -/
theorem validate_of_ofText {text : String} {c : Config} (read : ofText text = .ok c) :
    c.validate = .ok () := by
  unfold ofText at read
  split at read
  · cases read
  · rename_i config _
    cases valid : config.validate with
    | error defect => rw [valid] at read; cases read
    | ok _ =>
        rw [valid] at read
        obtain rfl := Except.ok.inj read
        exact valid

/-! ## Files -/

section File

open Disk (fileSystem)

theorem run_load (path : String) (d : Disk) :
    (load fileSystem path).run d =
      (match d.readText path with
        | .error cause => .error (.file cause)
        | .ok text => (ofText text).mapError .config, d) := by
  have asked : (fileSystem.readText path).run d = (d.readText path, d) := rfl
  rw [load, Disk.run_bind, asked]
  cases d.readText path <;> rfl

/-- Loading answers a configuration when the file holds a text of one. -/
theorem run_load_eq_ok_iff {path : String} {d d' : Disk} {c : Config} :
    (load fileSystem path).run d = (.ok c, d') ↔
      (∃ text, d.readText path = .ok text ∧ ofText text = .ok c) ∧ d' = d := by
  rw [run_load, Prod.mk.injEq]
  refine and_congr ?_ eq_comm
  cases d.readText path with
  | error cause => simp
  | ok text => simp [mapError_eq_ok_iff]

theorem run_save_eq_ok_iff {path : String} {d d' : Disk} {c : Config} :
    (save fileSystem c path).run d = (.ok (), d') ↔
      d.writeFile path (.text c.toText) = .ok d' := by
  change (Disk.change _).run d = _ ↔ _
  rw [Disk.run_change, Prod.ext_iff]
  cases d.writeFile path (.text c.toText) <;> simp

/-- **A configuration file reads back.** A configuration without a defect is saved as a text
that reads as this configuration.  Where it was saved it is loaded again, and saving what was
loaded writes the same text once more and changes nothing.  Whatever a file holds, what is
loaded from it has no defect, and loading changes nothing. -/
theorem load_of_save :
    (∀ c : Config, c.validate = .ok () → ofText c.toText = .ok c ∧
      ∀ path d d', (save fileSystem c path).run d = (.ok (), d') →
        d'.readText path = .ok c.toText ∧
        (load fileSystem path).run d' = (.ok c, d') ∧
        ∀ loaded, ((load fileSystem path).run d').1 = .ok loaded →
          (save fileSystem loaded path).run d' = (.ok (), d')) ∧
    ∀ path d d' c, (load fileSystem path).run d = (.ok c, d') → c.validate = .ok () ∧ d' = d := by
  refine ⟨?_, ?_⟩
  · intro c valid
    have read : ofText c.toText = .ok c := by
      rw [ofText_toText, valid]
      rfl
    refine ⟨read, ?_⟩
    intro path d d' saved
    have written := run_save_eq_ok_iff.1 saved
    have text := Disk.readText_of_writeFile written
    have again := run_load_eq_ok_iff.2 ⟨⟨_, text, read⟩, rfl⟩
    refine ⟨text, again, ?_⟩
    intro loaded same
    rw [again] at same
    obtain rfl := Except.ok.inj same
    exact run_save_eq_ok_iff.2 (Disk.writeFile_again written)
  · intro path d d' c loaded
    obtain ⟨⟨text, -, read⟩, same⟩ := run_load_eq_ok_iff.1 loaded
    exact ⟨validate_of_ofText read, same⟩

/-- A configuration whose texts have to be escaped. -/
def unusualConfig : Config where
  fake := { classPrefix := "", extraImports := ["\"a\\\n\x01\"", "<é\x7f>"] }
  output := { directory := "\t\"fakes\"", overwrite := true }

theorem load_of_save_unusual :
    unusualConfig.validate = .ok () ∧
    ∃ d', (save fileSystem unusualConfig "/c.json").run { entries := [] } = (.ok (), d') ∧
      (load fileSystem "/c.json").run d' = (.ok unusualConfig, d') ∧
      (save fileSystem unusualConfig "/c.json").run d' = (.ok (), d') := by
  have valid : unusualConfig.validate = .ok () := by rfl
  obtain ⟨-, files⟩ := load_of_save.1 unusualConfig valid
  have saved : (save fileSystem unusualConfig "/c.json").run { entries := [] } = (.ok (), _) := rfl
  obtain ⟨-, loaded, again⟩ := files _ _ _ saved
  exact ⟨valid, _, saved, loaded, again unusualConfig (congrArg Prod.fst loaded)⟩

end File

end Config

end ProtocolFakes
