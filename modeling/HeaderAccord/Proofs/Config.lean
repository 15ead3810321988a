import HeaderAccord.Config
import HeaderAccord.Proofs.Binding.Sources
import HeaderAccord.Proofs.Json.Reading
import HeaderAccord.Proofs.NameMap
import HeaderAccord.Proofs.Path

/-!
Settings and where they come from. A document that gives some of the settings, in any order and
however it is spelled, is read as the configuration with those settings and the defaults for the
others. A setting of the document means what it means on the command line, but for an extension
with dots in front of it, which only the command line takes off.
-/

namespace HeaderAccord.Config

open Json TreeReader

/-! ### Settings -/

inductive Setting
  | headers (paths : List Path)
  | sourceDir (path : Path)
  | buildScript (path : Path)
  | exportMarker (marker : String)
  | extension (name : String)
  | strictCoverage (on : Bool)

namespace Setting

/-- The name of the setting in a document. -/
def key : Setting → String
  | headers _ => "headers"
  | sourceDir _ => "source_dir"
  | buildScript _ => "build_script"
  | exportMarker _ => "export_marker"
  | extension _ => "extension"
  | strictCoverage _ => "strict_coverage"

def pathValue (p : Path) : Json := .string p.text

/-- The value of the setting in a document. -/
def value : Setting → Json
  | headers paths => .array (paths.map pathValue)
  | sourceDir path => pathValue path
  | buildScript path => pathValue path
  | exportMarker marker => .string marker
  | extension name => .string name
  | strictCoverage on => .bool on

def member (s : Setting) : String × Json := (s.key, s.value)

/-- The setting given on the command line. -/
def overrides : Setting → ConfigOverrides
  | headers paths => { headers := paths }
  | sourceDir path => { sourceDir := some path }
  | buildScript path => { buildScript := some path }
  | exportMarker marker => { exportMarker := some marker }
  | extension name => { extension := some name }
  | strictCoverage on => { strictCoverage := on }

/-- The setting without dots in front of an extension. -/
def bare : Setting → Setting
  | extension name => extension (bareExtension name)
  | s => s

/-- The setting is an extension that begins with a dot. -/
def IsDotted : Setting → Prop
  | extension name => name.toList.head? = some '.'
  | _ => False

/-- The configuration with the setting as it is written. -/
def assign (c : Config) : Setting → Config
  | headers paths => { c with headers := paths }
  | sourceDir path => { c with sourceDir := path }
  | buildScript path => { c with buildScript := path }
  | exportMarker marker => { c with exportMarker := marker }
  | extension name => { c with extension := name }
  | strictCoverage on => { c with strictCoverage := on }

@[simp] def headers? : Setting → Option (List Path)
  | headers paths => some paths
  | _ => none

@[simp] def sourceDir? : Setting → Option Path
  | sourceDir path => some path
  | _ => none

@[simp] def buildScript? : Setting → Option Path
  | buildScript path => some path
  | _ => none

@[simp] def exportMarker? : Setting → Option String
  | exportMarker marker => some marker
  | _ => none

@[simp] def extension? : Setting → Option String
  | extension name => some name
  | _ => none

@[simp] def strictCoverage? : Setting → Option Bool
  | strictCoverage on => some on
  | _ => none

end Setting

/-- The object that gives these settings. -/
def document (settings : List Setting) : Json := .object (settings.map Setting.member)

/-- The configuration with these settings, and the defaults for the others. -/
def ofSettings (settings : List Setting) : Config :=
  let default : Config := {}
  { headers := (settings.findSome? Setting.headers?).getD default.headers
    sourceDir := (settings.findSome? Setting.sourceDir?).getD default.sourceDir
    buildScript := (settings.findSome? Setting.buildScript?).getD default.buildScript
    exportMarker := (settings.findSome? Setting.exportMarker?).getD default.exportMarker
    extension := (settings.findSome? Setting.extension?).getD default.extension
    strictCoverage := (settings.findSome? Setting.strictCoverage?).getD default.strictCoverage }

/-! ### Settings by name -/

/-- The settings of a name are made from the values that `pick` takes. -/
structure IsSlot {α : Type} (name : String) (make : α → Setting) (pick : Setting → Option α) :
    Prop where
  key_make : ∀ a, (make a).key = name
  pick_make : ∀ a, pick (make a) = some a
  cover : ∀ s, (∃ a, s = make a) ∨ (s.key ≠ name ∧ pick s = none)

theorem isSlot_headers : IsSlot "headers" Setting.headers Setting.headers? where
  key_make _ := rfl
  pick_make _ := rfl
  cover s := by cases s <;> simp [Setting.key, Setting.headers?]

theorem isSlot_sourceDir : IsSlot "source_dir" Setting.sourceDir Setting.sourceDir? where
  key_make _ := rfl
  pick_make _ := rfl
  cover s := by cases s <;> simp [Setting.key, Setting.sourceDir?]

theorem isSlot_buildScript : IsSlot "build_script" Setting.buildScript Setting.buildScript? where
  key_make _ := rfl
  pick_make _ := rfl
  cover s := by cases s <;> simp [Setting.key, Setting.buildScript?]

theorem isSlot_exportMarker :
    IsSlot "export_marker" Setting.exportMarker Setting.exportMarker? where
  key_make _ := rfl
  pick_make _ := rfl
  cover s := by cases s <;> simp [Setting.key, Setting.exportMarker?]

theorem isSlot_extension : IsSlot "extension" Setting.extension Setting.extension? where
  key_make _ := rfl
  pick_make _ := rfl
  cover s := by cases s <;> simp [Setting.key, Setting.extension?]

theorem isSlot_strictCoverage :
    IsSlot "strict_coverage" Setting.strictCoverage Setting.strictCoverage? where
  key_make _ := rfl
  pick_make _ := rfl
  cover s := by cases s <;> simp [Setting.key, Setting.strictCoverage?]

namespace IsSlot

variable {α : Type} {name : String} {make : α → Setting} {pick : Setting → Option α}

theorem findSome?_eq_none (hslot : IsSlot name make pick) {settings : List Setting}
    (h : name ∉ settings.map Setting.key) : settings.findSome? pick = none := by
  refine List.findSome?_eq_none_iff.2 fun s hs => ?_
  rcases hslot.cover s with ⟨a, rfl⟩ | ⟨-, hpick⟩
  · exact absurd (List.mem_map.2 ⟨_, hs, hslot.key_make a⟩) h
  · exact hpick

/-- Among settings of different names, one that is picked is the only one. -/
theorem findSome?_insert (hslot : IsSlot name make pick) {before after : List Setting} {s : Setting}
    (hdistinct : ((before ++ s :: after).map Setting.key).Nodup) :
    (before ++ s :: after).findSome? pick = (pick s).or ((before ++ after).findSome? pick) := by
  rw [List.findSome?_append, List.findSome?_cons, List.findSome?_append]
  rcases hslot.cover s with ⟨a, rfl⟩ | ⟨-, hpick⟩
  · have hbefore : name ∉ before.map Setting.key := fun hmem => by
      rw [List.map_append, List.map_cons, hslot.key_make, List.nodup_append] at hdistinct
      exact hdistinct.2.2 name hmem name (by simp) rfl
    rw [hslot.findSome?_eq_none hbefore, hslot.pick_make, Option.none_or, Option.some_or]
  · rw [hpick, Option.none_or]

end IsSlot

/-! ### Reading a document -/

theorem reads_path : Reads readPath Setting.pathValue := by
  intro t p h
  rw [readPath, reads_textAs "path string" t p.text h]
  rfl

theorem reads_paths : Reads readPaths fun paths => .array (paths.map Setting.pathValue) :=
  reads_list reads_path

/-- A document may hold any setting. -/
theorem accepts_member (s : Setting) : form.Accepts s.member := by
  cases s with
  | headers paths => exact ⟨_, rfl, fun _ h => check_field reads_paths _ paths h⟩
  | sourceDir path => exact ⟨_, rfl, fun _ h => check_field reads_path _ path h⟩
  | buildScript path => exact ⟨_, rfl, fun _ h => check_field reads_path _ path h⟩
  | exportMarker marker => exact ⟨_, rfl, fun _ h => check_field reads_text _ marker h⟩
  | extension name => exact ⟨_, rfl, fun _ h => check_field reads_text _ name h⟩
  | strictCoverage on => exact ⟨_, rfl, fun _ h => check_field reads_bool _ on h⟩

/-- Under the name of a setting stands what the settings say, or nothing. -/
theorem optional_eq {α : Type} {name : String} {make : α → Setting} {pick : Setting → Option α}
    (hslot : IsSlot name make pick) {read : TreeReader α} {encode : α → Json}
    (hread : Reads read encode) (hencode : ∀ a, (make a).value = encode a)
    {entries : List (String × Tree)} {settings : List Setting}
    (h : List.Forall₂ DenotesMember entries (settings.map Setting.member)) (default : α) :
    FieldValues.optional entries name default read =
      .ok ((settings.findSome? pick).getD default) := by
  induction settings generalizing entries with
  | nil =>
      cases h
      rfl
  | cons s settings ih =>
      obtain _ | @⟨⟨key, t⟩, _, entries, _, ⟨hkey, hvalue⟩, hentries⟩ := h
      rw [FieldValues.optional, lookup_cons_eq, List.findSome?_cons]
      rcases hslot.cover s with ⟨a, rfl⟩ | ⟨hname, hpick⟩
      · have heq : name = key := (hkey.trans (hslot.key_make a)).symm
        rw [if_pos heq, hslot.pick_make]
        exact hread t a (hencode a ▸ hvalue)
      · have hne : name ≠ key := fun heq => hname (hkey.symm.trans heq.symm)
        rw [if_neg hne, hpick]
        exact ih hentries

/-- A document with settings of different names is read as these settings. -/
theorem ofJsonText_document {text : String} {settings : List Setting}
    (hdistinct : (settings.map Setting.key).Nodup) (h : HasValue text (document settings)) :
    ofJsonText text = .ok (ofSettings settings) := by
  obtain ⟨t, htext, hfree⟩ := h
  have hnames : (settings.map Setting.member).map (·.1) = settings.map Setting.key := by
    rw [List.map_map]
    rfl
  obtain ⟨entries, hread, hentries⟩ := @RecordForm.read_of_denotes form _ _ ⟨_, hfree⟩
    (by rwa [hnames]) (List.forall_mem_map.2 fun s _ => accepts_member s)
  rw [ofJsonText, TreeReader.run, htext]
  simp only [read, hread, bind, Except.bind,
    optional_eq isSlot_headers reads_paths (fun _ => rfl) hentries,
    optional_eq isSlot_sourceDir reads_path (fun _ => rfl) hentries,
    optional_eq isSlot_buildScript reads_path (fun _ => rfl) hentries,
    optional_eq isSlot_exportMarker reads_text (fun _ => rfl) hentries,
    optional_eq isSlot_extension reads_text (fun _ => rfl) hentries,
    optional_eq isSlot_strictCoverage reads_bool (fun _ => rfl) hentries]
  rfl

/-! ### Documents and the command line -/

/-- A document with one setting more is read as the other one with that setting as it is written. -/
theorem ofSettings_insert {before after : List Setting} {s : Setting}
    (hdistinct : ((before ++ s :: after).map Setting.key).Nodup) :
    ofSettings (before ++ s :: after) = s.assign (ofSettings (before ++ after)) := by
  rw [ofSettings, ofSettings, isSlot_headers.findSome?_insert hdistinct,
    isSlot_sourceDir.findSome?_insert hdistinct, isSlot_buildScript.findSome?_insert hdistinct,
    isSlot_exportMarker.findSome?_insert hdistinct, isSlot_extension.findSome?_insert hdistinct,
    isSlot_strictCoverage.findSome?_insert hdistinct]
  cases s <;> simp [Setting.assign]

theorem bareExtension_eq_iff {name : String} :
    bareExtension name = name ↔ name.toList.head? ≠ some '.' := by
  rw [bareExtension, ← String.toList_inj, String.toList_ofList]
  cases name.toList with
  | nil => simp
  | cons c cs =>
      by_cases hc : c = '.'
      · have hlength : (cs.dropWhile (· = '.')).length ≤ cs.length :=
          (List.dropWhile_suffix _).length_le
        have hne : cs.dropWhile (· = '.') ≠ '.' :: cs := fun heq => by
          rw [heq, List.length_cons] at hlength
          omega
        simpa [hc] using hne
      · simp [hc]

/-- The command line gives a setting as it is written, but an extension without its dots. -/
theorem withOverrides_overrides {c : Config} {s : Setting} (hheaders : s ≠ .headers [])
    (hstrict : ∀ on, s = .strictCoverage on → c.strictCoverage = false) :
    c.withOverrides s.overrides = s.bare.assign c := by
  cases s with
  | headers paths =>
      have hne : paths ≠ [] := fun heq => hheaders (heq ▸ rfl)
      simp [withOverrides, Setting.overrides, Setting.bare, Setting.assign, hne]
  | strictCoverage on =>
      simp [withOverrides, Setting.overrides, Setting.bare, Setting.assign, hstrict on rfl]
  | _ => simp [withOverrides, Setting.overrides, Setting.bare, Setting.assign]

theorem assign_eq_assign_bare_iff {c : Config} {s : Setting} :
    s.assign c = s.bare.assign c ↔ ¬s.IsDotted := by
  cases s with
  | extension name =>
      rw [Setting.bare, Setting.IsDotted, ← ne_eq, ← bareExtension_eq_iff]
      simp [Setting.assign, eq_comm]
  | _ => exact ⟨fun _ => nofun, fun _ => rfl⟩

/-- No file has an extension that begins with a dot. -/
theorem sourceFiles_dotted {name : String} (h : name.toList.head? = some '.') (dir : Path)
    (entries : Disk.Listing) : Binding.sourceFiles dir entries name = [] := by
  have hnone (path : Path) : path.extension? ≠ some name := by
    intro heq
    obtain ⟨file, -, hfile⟩ := Option.bind_eq_some_iff.1 heq
    obtain ⟨extension, hextension, rfl⟩ := Option.map_eq_some_iff.1 hfile
    rw [String.toList_ofList] at h
    exact Path.dot_not_mem_of_extensionOf? hextension (List.mem_of_mem_head? h)
  rw [List.eq_nil_iff_forall_not_mem]
  intro file hfile
  have hkept := (List.mem_filter.1 ((Binding.sourceFiles_perm ..).mem_iff.1 hfile)).2
  exact hnone file.1 (of_decide_eq_true hkept)

/-- A setting of a document is read as if the document were without it and the setting given on the
command line, exactly unless it is an extension that begins with a dot. Then the document keeps the
dot, and no file is a source file. -/
theorem ofJsonText_withOverrides {before after : List Setting} {s : Setting} {text rest : String}
    (hdistinct : ((before ++ s :: after).map Setting.key).Nodup) (hheaders : s ≠ .headers [])
    (htext : HasValue text (document (before ++ s :: after)))
    (hrest : HasValue rest (document (before ++ after))) :
    ∃ given, ofJsonText text = .ok given ∧
      (ofJsonText text = (ofJsonText rest).map (·.withOverrides s.overrides) ↔ ¬s.IsDotted) ∧
      (s.IsDotted → ∀ dir entries,
        Binding.sourceFiles dir entries given.argumentOptions.extension = []) := by
  have hothers : ((before ++ after).map Setting.key).Nodup :=
    hdistinct.sublist (((List.Sublist.refl before).append (List.sublist_cons_self s after)).map _)
  have hgiven := ofJsonText_document hdistinct htext
  rw [ofSettings_insert hdistinct] at hgiven
  have hstrict : ∀ on, s = .strictCoverage on →
      (ofSettings (before ++ after)).strictCoverage = false := by
    rintro on rfl
    have hothers : "strict_coverage" ∉ (before ++ after).map Setting.key := by
      have hperm : (before ++ .strictCoverage on :: after).Perm
          (.strictCoverage on :: (before ++ after)) := List.perm_middle
      exact (List.nodup_cons.1 ((hperm.map Setting.key).nodup_iff.1 hdistinct)).1
    rw [ofSettings, isSlot_strictCoverage.findSome?_eq_none hothers]
    rfl
  refine ⟨_, hgiven, ?_, fun hdotted dir entries => ?_⟩
  · have hoverridden : (ofJsonText rest).map (·.withOverrides s.overrides) =
        .ok (s.bare.assign (ofSettings (before ++ after))) := by
      rw [ofJsonText_document hothers hrest, ← withOverrides_overrides hheaders hstrict]
      rfl
    rw [hgiven, hoverridden, Except.ok.injEq, assign_eq_assign_bare_iff]
  · cases s with
    | extension name => exact sourceFiles_dotted hdotted dir entries
    | _ => cases hdotted

/-- The dot of an extension stays in a document, but not on the command line. -/
theorem ofJsonText_dotted :
    ofJsonText "\x7b\"extension\":\".rs\"\x7d" = .ok { extension := ".rs" } ∧
      (ofJsonText "\x7b\x7d").map (·.withOverrides { extension := some ".rs" }) = .ok {} := by
  have htext : (document [.extension ".rs"]).compact = "\x7b\"extension\":\".rs\"\x7d" := by
    decide +kernel
  have hrest : (document []).compact = "\x7b\x7d" := by decide +kernel
  constructor
  · rw [← htext, ofJsonText_document (by decide) (hasValue_compact (by decide) (by decide))]
    rfl
  · rw [← hrest, ofJsonText_document (by decide) (hasValue_compact (by decide) (by decide))]
    decide +kernel

/-! The export marker among other settings. -/

theorem ofJsonText_withOverrides_marker :
    ofJsonText ("\x7b\"headers\":[\"a.h\"],\"export_marker\":\"SDK\"," ++
        "\"extension\":\"inc\"\x7d") =
      (ofJsonText "\x7b\"headers\":[\"a.h\"],\"extension\":\"inc\"\x7d").map
        (·.withOverrides { exportMarker := some "SDK" }) := by
  have htext : (document [.headers [⟨"a.h"⟩], .exportMarker "SDK", .extension "inc"]).compact =
      "\x7b\"headers\":[\"a.h\"],\"export_marker\":\"SDK\"," ++
        "\"extension\":\"inc\"\x7d" := by decide +kernel
  have hrest : (document [.headers [⟨"a.h"⟩], .extension "inc"]).compact =
      "\x7b\"headers\":[\"a.h\"],\"extension\":\"inc\"\x7d" := by decide +kernel
  rw [← htext, ← hrest]
  obtain ⟨-, -, hsame, -⟩ := @ofJsonText_withOverrides [.headers [⟨"a.h"⟩]] [.extension "inc"]
    (.exportMarker "SDK") _ _ (by decide) nofun (hasValue_compact (by decide) (by decide))
    (hasValue_compact (by decide) (by decide))
  exact hsame.2 nofun

end HeaderAccord.Config
