import Conformance.Proofs.Path.Spelling
import Conformance.Proofs.Project.Run

/-!
# Locations that are spelled differently

Rules can write the location of one target in several ways. Reading the target and showing it depend on the path alone,
and so does the exemption of pages and of the root of a program. The text of the location is asked twice: whether it is
that of a component, and whether it belongs to a utility module. If the answers are the same, so are the results
(`Run.checkRules_respelled`), and they are the same if the texts begin and end alike.
-/

namespace Conformance

/-! ## Checks of one file -/

namespace Subject

/-- The same file under a rule that writes its location differently. -/
def respelled (s : Subject) (location : String) : Subject :=
  { s with rule := { s.rule with location := location } }

variable {s : Subject} {location : String}

/-- **The class of a component depends on the path only.** -/
theorem componentClass_respelled (hpath : Path.ofString location = Path.ofString s.rule.location) :
    (s.respelled location).componentClass = s.componentClass := by
  have hnamed : ∀ name ∈ ["App.tsx", "Page.tsx"],
      Text.occursIn name location = Text.occursIn name s.rule.location := by
    intro name hname
    have hall : ∀ name ∈ ["App.tsx", "Page.tsx"], '/' ∉ name.toList ∧ Path.isName name.toList := by decide
    obtain ⟨hslash, hname⟩ := hall name hname
    rw [Path.occursIn_eq_any_parts hslash hname, Path.occursIn_eq_any_parts hslash hname, hpath]
  have happ := hnamed "App.tsx" (by simp)
  have hpage := hnamed "Page.tsx" (by simp)
  unfold componentClass respelled
  simp only [happ, hpage]
  rfl

end Subject

namespace Check

variable {s : Subject} {location : String}

theorem businessLogic_respelled (hpath : Path.ofString location = Path.ofString s.rule.location)
    (hcomponent : Rule.isComponentLocation location = s.rule.isComponent) :
    businessLogic (s.respelled location) = businessLogic s ∧
      businessLogicLog (s.respelled location) = businessLogicLog s := by
  have hrule : (s.respelled location).rule.isComponent = s.rule.isComponent := hcomponent
  have hclass := Subject.componentClass_respelled hpath
  unfold businessLogic businessLogicLog
  rw [hrule, hclass]
  exact ⟨rfl, rfl⟩

theorem unusedExports_respelled (hmarker : Text.occursIn s.settings.utilitiesMarker ("/" ++ location) =
    Text.occursIn s.settings.utilitiesMarker ("/" ++ s.rule.location)) :
    unusedExports (s.respelled location) = unusedExports s := by
  have hrule : Text.occursIn (s.respelled location).settings.utilitiesMarker
      ("/" ++ (s.respelled location).rule.location) =
      Text.occursIn s.settings.utilitiesMarker ("/" ++ s.rule.location) := hmarker
  unfold unusedExports
  rw [hrule]
  rfl

/-- **The checks find the same in a file whose location is spelled differently**, if the text of the location still
says whether it is a component and whether it is a utility. -/
theorem ofFile_respelled (hpath : Path.ofString location = Path.ofString s.rule.location)
    (hcomponent : Rule.isComponentLocation location = s.rule.isComponent)
    (hmarker : Text.occursIn s.settings.utilitiesMarker ("/" ++ location) =
      Text.occursIn s.settings.utilitiesMarker ("/" ++ s.rule.location)) :
    (ofFile.flatMap fun check => check (s.respelled location)) = ofFile.flatMap fun check => check s := by
  simp only [ofFile, List.flatMap_cons]
  rw [(businessLogic_respelled hpath hcomponent).1, unusedExports_respelled hmarker]
  -- the other checks do not look at the location
  rfl

end Check

/-! ## Runs -/

namespace Run

section

variable {d : Disk} {r : Run} {rule : Rule} {location : String}

theorem checkFile_respelled (hpath : Path.ofString location = Path.ofString rule.location)
    (hcomponent : Rule.isComponentLocation location = rule.isComponent)
    (hmarker : Text.occursIn r.settings.utilitiesMarker ("/" ++ location) =
      Text.occursIn r.settings.utilitiesMarker ("/" ++ rule.location)) (target : Path) :
    r.checkFile d target { rule with location := location } = r.checkFile d target rule := by
  unfold checkFile
  cases d.file? target with
  | error e => rfl
  | ok bytes? =>
    cases bytes? with
    | none => rfl
    | some bytes =>
      have hsubject : r.subject target { rule with location := location } bytes =
          (r.subject target rule bytes).respelled location := rfl
      have hchecks := Check.ofFile_respelled (s := r.subject target rule bytes) hpath hcomponent hmarker
      have hlog := (Check.businessLogic_respelled (s := r.subject target rule bytes) hpath hcomponent).2
      simp only [hsubject, hchecks, hlog]

/-- **A rule comes to the same however its location is spelled**, as long as both spellings say the same of what is
asked of the text itself: whether it is the location of a component, and whether it belongs to a utility. They do if
both begin and end alike, when utilities are those below a folder of some name. -/
theorem checkRules_respelled (hne : location ≠ "") (hne' : rule.location ≠ "")
    (hpath : Path.ofString location = Path.ofString rule.location) :
    (Rule.isComponentLocation location = Rule.isComponentLocation rule.location →
      Text.occursIn r.settings.utilitiesMarker ("/" ++ location) =
        Text.occursIn r.settings.utilitiesMarker ("/" ++ rule.location) →
      (r.checkRules d [{ rule with location := location }]).run = (r.checkRules d [rule]).run ∧
        (r.checkRules d [{ rule with location := location }]).error? = (r.checkRules d [rule]).error?) ∧
    (Path.beginsWithName location.toList = Path.beginsWithName rule.location.toList →
      Path.endsWithName location.toList = Path.endsWithName rule.location.toList →
      Rule.isComponentLocation location = Rule.isComponentLocation rule.location ∧
        ∀ name : String, '/' ∉ name.toList → Path.isName name.toList →
          Text.occursIn ("/" ++ name ++ "/") ("/" ++ location) =
            Text.occursIn ("/" ++ name ++ "/") ("/" ++ rule.location)) := by
  refine ⟨fun hcomponent hmarker => ?_, fun hbegins hends => ⟨?_, fun name hslash hname => ?_⟩⟩
  · have hinert : ¬ Rule.isInert { rule with location := location } := by simpa [Rule.isInert] using hne
    have hinert' : ¬ rule.isInert := by simpa [Rule.isInert] using hne'
    have htarget : r.target { rule with location := location } = r.target rule := by rw [target, target, hpath]
    rw [checkRules_of_not_inert hinert, checkRules_of_not_inert hinert', htarget,
      checkFile_respelled hpath hcomponent hmarker]
    cases r.checkFile d (r.target rule) rule with
    | error e => exact ⟨rfl, rfl⟩
    | ok next => exact ⟨rfl, rfl⟩
  · exact Rule.isComponentLocation_congr hpath hbegins hends
  · have hnames := Path.names_eq_of_components (Path.mk.inj hpath).2
    have h := Path.occurs_folder_slash_congr hnames hends hslash hname
    simpa [Text.occursIn] using h

end

/-- A disk with a component, which implements no error boundary. -/
def componentDisk : Disk :=
  ⟨.folder [("components", .folder [("List.tsx", .file ⟨#[]⟩)])], []⟩

/-- A run in a project at the root of a disk. -/
def atRoot : Run := { root := ⟨.root, []⟩ }

theorem checkRules_respelled_component :
    let rule : Rule := { location := "./components/List.tsx" }
    Path.ofString ".//components/./List.tsx" = Path.ofString rule.location ∧
      (atRoot.checkRules componentDisk [{ rule with location := ".//components/./List.tsx" }]).run =
        (atRoot.checkRules componentDisk [rule]).run ∧
      (atRoot.checkRules componentDisk [rule]).run.violations.length = 1 := by
  intro rule
  have hpath : Path.ofString ".//components/./List.tsx" = Path.ofString rule.location := by decide +kernel
  obtain ⟨hsame, halike⟩ := checkRules_respelled (d := componentDisk) (r := atRoot) (by decide) (by decide) hpath
  obtain ⟨hcomponent, hfolder⟩ := halike (by decide +kernel) (by decide +kernel)
  have hmarker := hfolder "utils" (by decide) (by decide)
  exact ⟨hpath, (hsame hcomponent hmarker).1, by decide +kernel⟩

/-- How many violations a rule for the location comes to on the disk with a component. -/
def violationsAt (location : String) : Nat :=
  (atRoot.checkRules componentDisk [{ location := location }]).run.violations.length

/-- **The text of a location matters** where it decides whether the location is that of a component: without a dot
before it, the folder `components` is not found at the start, and with a dot behind it, the ending of the file is not
the end of the text. -/
theorem checkRules_component_spellings :
    (Path.ofString "components/List.tsx" = Path.ofString "./components/List.tsx" ∧
      Path.ofString "./components/List.tsx/." = Path.ofString "./components/List.tsx") ∧
    violationsAt "./components/List.tsx" = 1 ∧ violationsAt "components/List.tsx" = 0 ∧
      violationsAt "./components/List.tsx/." = 0 := by
  decide +kernel

end Run

end Conformance
