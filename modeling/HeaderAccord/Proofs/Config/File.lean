import HeaderAccord.CommandLine.Command
import HeaderAccord.Proofs.Config
import HeaderAccord.Proofs.Disk.Reading
import HeaderAccord.Proofs.Json.Soundness

/-!
Configurations of files. An object is read as a configuration only if it is a document: each of its
members gives a setting, and none gives one that another gives. The settings of a file have their
paths taken from the folder of the file on; those of the command line keep theirs.
-/

namespace HeaderAccord.Config

open Json TreeReader CommandLine

/-! ### Members that are taken -/

theorem sound_path : Sound readPath Setting.pathValue 0 := by
  intro t p h depth hdepth
  obtain ⟨text, htext, rfl⟩ := map_eq_ok_iff.1 h
  exact sound_textAs "path string" t text htext depth hdepth

theorem sound_paths :
    Sound readPaths (fun paths => .array (paths.map Setting.pathValue)) 1 :=
  sound_list sound_path

/-- The member stands for the setting. -/
def Gives (entry : String × Tree) (s : Setting) : Prop :=
  entry.1 = s.key ∧ ∀ depth, 1 ≤ depth → entry.2.free depth = .ok s.value

/-- A member gives a setting of its name if it has passed the check of that field. -/
theorem exists_gives_of_check {α : Type} {name : String} {make : α → Setting}
    {pick : Setting → Option α} (hslot : IsSlot name make pick) {read : TreeReader α}
    {encode : α → Json} {levels : Nat} (hsound : Sound read encode levels) (hlevels : levels ≤ 1)
    (hvalue : ∀ a, (make a).value = encode a) {t : Tree}
    (h : (field name read).check t = .ok ()) : ∃ s, Gives (name, t) s := by
  obtain ⟨a, ha⟩ := exists_of_check_field h
  refine ⟨make a, (hslot.key_make a).symm, fun depth hdepth => ?_⟩
  rw [hvalue]
  exact hsound t a ha depth (Nat.le_trans hlevels hdepth)

theorem exists_gives {entry : String × Tree} (h : form.Fits entry) : ∃ s, Gives entry s := by
  obtain ⟨name, t⟩ := entry
  obtain ⟨f, hfind, hcheck⟩ := h
  have hname : f.name = name := by simpa using List.find?_some hfind
  have hall : ∀ f ∈ form.fields, f.check t = .ok () → ∃ s, Gives (f.name, t) s := by
    have hscalar := Nat.zero_le 1
    simp only [form, List.forall_mem_cons]
    exact ⟨exists_gives_of_check isSlot_headers sound_paths (Nat.le_refl 1) fun _ => rfl,
      exists_gives_of_check isSlot_sourceDir sound_path hscalar fun _ => rfl,
      exists_gives_of_check isSlot_buildScript sound_path hscalar fun _ => rfl,
      exists_gives_of_check isSlot_exportMarker sound_text hscalar fun _ => rfl,
      exists_gives_of_check isSlot_extension sound_text hscalar fun _ => rfl,
      exists_gives_of_check isSlot_strictCoverage sound_bool hscalar fun _ => rfl, nofun⟩
  exact hname ▸ hall f (List.mem_of_find?_eq_some hfind) hcheck

theorem exists_settings_of_fits {entries : List (String × Tree)}
    (h : ∀ e ∈ entries, form.Fits e) : ∃ settings, List.Forall₂ Gives entries settings := by
  induction entries with
  | nil => exact ⟨[], .nil⟩
  | cons e entries ih =>
      obtain ⟨hfits, hrest⟩ := List.forall_mem_cons.1 h
      obtain ⟨s, hs⟩ := exists_gives hfits
      obtain ⟨settings, hsettings⟩ := ih hrest
      exact ⟨s :: settings, .cons hs hsettings⟩

theorem map_key_of_gives {entries : List (String × Tree)} {settings : List Setting}
    (h : List.Forall₂ Gives entries settings) :
    entries.map (·.1) = settings.map Setting.key := by
  induction h with
  | nil => rfl
  | cons hgives _ ih => rw [List.map_cons, List.map_cons, hgives.1, ih]

/-- Members that give settings are the members of a document. -/
theorem free_of_gives {members : List (RawString × Tree)} {entries : List (String × Tree)}
    {settings : List Setting} (hnamed : List.Forall₂ Named members entries)
    (hgives : List.Forall₂ Gives entries settings) {depth : Nat} (hdepth : 2 ≤ depth) :
    (Tree.object members none).free depth = .ok (document settings) := by
  obtain ⟨depth, rfl⟩ := Nat.exists_eq_add_one_of_ne_zero (Nat.ne_zero_of_lt hdepth)
  have hfree : Tree.freeMembers depth members = .ok (settings.map Setting.member) := by
    induction hnamed generalizing settings with
    | nil =>
        cases hgives
        rfl
    | @cons member entry members entries hmember _ ih =>
        obtain ⟨raw, t⟩ := member
        obtain ⟨name, t'⟩ := entry
        obtain ⟨hname, rfl⟩ := hmember
        obtain _ | @⟨_, s, _, settings, ⟨rfl, hvalue⟩, hgives⟩ := hgives
        have hname : raw.text = .ok s.key := hname
        rw [Tree.freeMembers, hname, hvalue depth (Nat.le_of_succ_le_succ hdepth), ih hgives]
        rfl
  rw [Tree.free, if_neg (Nat.succ_ne_zero depth), Nat.add_sub_cancel, hfree]
  rfl

/-- An object that is read is a document whose settings have different names. -/
theorem exists_settings_of_ofJsonText {text : String} (hobject : OpensObject text) {c : Config}
    (h : ofJsonText text = .ok c) :
    ∃ settings : List Setting,
      (settings.map Setting.key).Nodup ∧ HasValue text (document settings) := by
  obtain ⟨members, fault, trailing, hobject⟩ := hobject
  rw [ofJsonText, TreeReader.run, hobject] at h
  obtain ⟨c', hread, hending⟩ := bind_eq_ok_iff.1 h
  obtain ⟨values, hform, -⟩ := bind_eq_ok_iff.1 hread
  obtain ⟨values', hmembers, hfault⟩ := bind_eq_ok_iff.1 hform
  obtain ⟨entries, hvalues, hnamed, hdistinct, hfits⟩ :=
    RecordForm.exists_of_ofMembers rfl hmembers List.nodup_nil
  cases trailing with
  | true => cases hending
  | false =>
      cases fault with
      | some f => cases hfault
      | none =>
          obtain ⟨settings, hgives⟩ := exists_settings_of_fits hfits
          refine ⟨settings, ?_, _, hobject, free_of_gives hnamed hgives (by decide)⟩
          rwa [← map_key_of_gives hgives, ← List.nil_append entries, ← hvalues]

/-- Settings of different names make the same configuration in any order. -/
theorem ofSettings_perm {settings order : List Setting}
    (hdistinct : (settings.map Setting.key).Nodup) (hperm : order.Perm settings) :
    ofSettings order = ofSettings settings := by
  induction settings generalizing order with
  | nil => rw [hperm.eq_nil]
  | cons s settings ih =>
      obtain ⟨before, after, rfl⟩ := List.mem_iff_append.1 (hperm.mem_iff.2 List.mem_cons_self)
      have horder : ((before ++ s :: after).map Setting.key).Nodup :=
        (hperm.map Setting.key).nodup_iff.2 hdistinct
      have hrest : (before ++ after).Perm settings :=
        (List.perm_middle.symm.trans hperm).cons_inv
      calc ofSettings (before ++ s :: after)
          _ = s.assign (ofSettings (before ++ after)) := ofSettings_insert horder
          _ = s.assign (ofSettings settings) := by rw [ih (List.nodup_cons.1 hdistinct).2 hrest]
          _ = ofSettings (s :: settings) := (@ofSettings_insert [] settings s hdistinct).symm

/-! ### Configurations of files -/

theorem ofFile_of_holds {d : Disk} {path : Path} {text : String} (h : d.Holds path text.toUTF8) :
    ofFile d path = ((ofJsonText text).mapError (.parse path)).map
      (·.rebased (path.parent?.getD ⟨""⟩)) := by
  rw [ofFile, Disk.readText_of_holds h]
  simp only [mapError_ok, bind, Except.bind]
  cases ofJsonText text <;> rfl

/-- An object is read as a configuration exactly if it is a document whose settings have different
names, and then as what these settings make in any order. From a file it is read with its paths
taken from the folder of the file on; a path of the command line is taken as it is. -/
theorem ofJsonText_eq_ok_iff_and_load {text : String} (hobject : OpensObject text) :
    (∀ c, ofJsonText text = .ok c ↔ ∃ settings : List Setting,
      (settings.map Setting.key).Nodup ∧ HasValue text (document settings) ∧
        ∀ order : List Setting, order.Perm settings → c = ofSettings order) ∧
    ∀ (d : Disk) (path : Path), d.Holds path text.toUTF8 →
      let base := path.parent?.getD ⟨""⟩
      ofFile d path = ((ofJsonText text).mapError (.parse path)).map (·.rebased base) ∧
      ∀ o : ConfigOverrides, Inputs.load { config := some path, overrides := o } d =
        ((ofJsonText text).mapError (.parse path)).map fun c =>
          { headers := if o.headers.isEmpty then c.headers.map base.join else o.headers
            sourceDir := o.sourceDir.getD (base.join c.sourceDir)
            buildScript := o.buildScript.getD (base.join c.buildScript)
            exportMarker := o.exportMarker.getD c.exportMarker
            extension := (o.extension.map bareExtension).getD c.extension
            strictCoverage := c.strictCoverage || o.strictCoverage } := by
  refine ⟨fun c => ⟨fun hread => ?_, ?_⟩, fun d path hholds => ?_⟩
  · obtain ⟨settings, hdistinct, hvalue⟩ := exists_settings_of_ofJsonText hobject hread
    refine ⟨settings, hdistinct, hvalue, fun order hperm => ?_⟩
    rw [ofSettings_perm hdistinct hperm]
    exact Except.ok.inj (hread.symm.trans (ofJsonText_document hdistinct hvalue))
  · rintro ⟨settings, hdistinct, hvalue, hmade⟩
    rw [ofJsonText_document hdistinct hvalue, hmade settings (List.Perm.refl settings)]
  · have hfile := ofFile_of_holds hholds
    refine ⟨hfile, fun o => ?_⟩
    rw [Inputs.load]
    simp only [hfile]
    cases ofJsonText text <;> rfl

/-! A configuration in the folder of a project, and a source folder of the command line. -/

def projectWith (config : String) : Disk where
  root := .folder "proj" (.file "cfg.json" config.toUTF8 .nil) .nil
  cwd := []

theorem ofJsonText_eq_ok_iff_and_load_projectWith :
    Inputs.load { config := some ⟨"proj/cfg.json"⟩, overrides := { sourceDir := some ⟨"lib"⟩ } }
        (projectWith ("\x7b\"strict_coverage\":true," ++
          "\"headers\":[\"a.h\",\"/abs/b.h\"]\x7d")) =
      .ok { headers := [⟨"proj/a.h"⟩, ⟨"/abs/b.h"⟩]
            sourceDir := ⟨"lib"⟩
            buildScript := ⟨"proj/build.rs"⟩
            strictCoverage := true } := by
  have htext : (document [.strictCoverage true, .headers [⟨"a.h"⟩, ⟨"/abs/b.h"⟩]]).compact =
      "\x7b\"strict_coverage\":true," ++ "\"headers\":[\"a.h\",\"/abs/b.h\"]\x7d" := by
    decide +kernel
  have hvalue := htext ▸ @hasValue_compact (document
    [.strictCoverage true, .headers [⟨"a.h"⟩, ⟨"/abs/b.h"⟩]]) (by decide) (by decide)
  obtain ⟨hread, hload⟩ := ofJsonText_eq_ok_iff_and_load hvalue.opensObject
  have hconfig := (hread _).2 ⟨_, by decide, hvalue, fun order hperm =>
    (ofSettings_perm (by decide) hperm).symm⟩
  obtain ⟨-, hload⟩ := hload (projectWith _) ⟨"proj/cfg.json"⟩ ⟨["proj", "cfg.json"], rfl, rfl⟩
  rw [hload, hconfig]
  simp only [mapError_ok, Except.map, Except.ok.injEq]
  decide +kernel

end HeaderAccord.Config
