import HeaderAccord.Proofs.Binding.Declaration
import HeaderAccord.Proofs.Binding.Front
import HeaderAccord.Proofs.Header.Capture
import HeaderAccord.Proofs.Spelling
import Mathlib.Data.Nat.Find

/-!
The check of a source, told by spellings. The identifier that is taken for a header function is the
first one that respells its name and opens a parameter list, and a parameter is taken for the
pointer parameter whose declared name it respells. Keys do not come into it.
-/

namespace HeaderAccord

open Name

namespace Header

/-- A name respells the one that the header declares the pointer parameter by. -/
def PointerArg.IsCalled (a : PointerArg) (name : List Char) : Prop :=
  ∃ declared ∈ declaredName? a.cParam.toList, Respells name declared

instance (a : PointerArg) (name : List Char) : Decidable (a.IsCalled name) :=
  inferInstanceAs (Decidable (∃ declared ∈ declaredName? _, _))

/-- The header declares the pointer parameter by an ASCII name. -/
def PointerArg.HasAsciiName (a : PointerArg) : Prop :=
  ∀ declared ∈ declaredName? a.cParam.toList, IsAscii declared

instance (a : PointerArg) : Decidable a.HasAsciiName :=
  inferInstanceAs (Decidable (∀ declared ∈ declaredName? _, _))

theorem PointerArg.IsCaptured.name_eq_iff {a : PointerArg} {declared : List Char}
    (h : a.IsCaptured declared) (ha : a.HasAsciiName) {name : String}
    (hname : IsAscii name.toList) : a.name = Name.key name ↔ a.IsCalled name.toList := by
  have hdeclared : IsAscii declared := ha declared h.declared_eq
  have hkey : a.name = Name.key name ↔ Respells name.toList declared := by
    rw [h.keyed, Name.key, String.ofList_inj, ← keyChars_eq_keyChars_iff hname hdeclared, eq_comm]
  rw [hkey, IsCalled, h.declared_eq]
  simp

end Header

namespace Binding

open Header

/-! ### Declarations of a function -/

/-- At `start` an identifier of the source respells a function's name and opens the parameter list
`params`. -/
def DeclaredAt (source name : List Char) (start : Nat) (params : List Char) : Prop :=
  ∃ before ident after, source = before ++ (ident ++ after) ∧ before.length = start ∧
    IsIdentifierAt before ident after ∧ Respells ident name ∧ Opens after params

/-- The first of a source's declarations of a function has the parameter list `params`. -/
def DeclaredFirst (source name params : List Char) : Prop :=
  ∃ start, DeclaredAt source name start params ∧
    ∀ earlier other, earlier < start → ¬DeclaredAt source name earlier other

theorem exists_declaredFirst {source name params : List Char} {start : Nat}
    (h : DeclaredAt source name start params) : ∃ first, DeclaredFirst source name first := by
  classical
  have hexists : ∃ start params, DeclaredAt source name start params := ⟨start, params, h⟩
  obtain ⟨first, hfirst⟩ := Nat.find_spec hexists
  exact ⟨first, Nat.find hexists, hfirst, fun earlier other hlt hother =>
    Nat.find_min hexists hlt ⟨other, hother⟩⟩

theorem isAscii_of_isIdentifier {name : List Char} (h : IsIdentifier name) : IsAscii name := by
  intro c hc
  have hpart := h.2.2 c hc
  simp only [isIdentifierPart, Bool.or_eq_true, decide_eq_true_eq] at hpart
  rcases hpart with rfl | hpart
  · decide
  · have hletter : ((c.isUpper || c.isLower) || c.isDigit) = true := hpart
    simp only [Bool.or_eq_true, isUpper_iff, isLower_iff, Char.isDigit_iff_toNat,
      Char.reduceToNat] at hletter
    omega

theorem boundParameters?_of_declaredFirst {name : String} (hname : IsAscii name.toList)
    {source params : List Char} (h : DeclaredFirst source name.toList params) :
    boundParameters? (Name.key name) (mentions source) = some params := by
  obtain ⟨start, ⟨before, ident, after, rfl, rfl, hat, hspelled, hopens⟩, hfirst⟩ := h
  have hkey : keyChars ident = keyChars name.toList :=
    (keyChars_eq_keyChars_iff (isAscii_of_isIdentifier hat.spelled) hname).2 hspelled
  rw [Name.key, ← hkey]
  refine boundParameters?_of_opens hat hopens ?_
  intro before' ident' after' other htext hat' hlt hkey' hopens'
  have hspelled' : Respells ident' name.toList :=
    (keyChars_eq_keyChars_iff (isAscii_of_isIdentifier hat'.spelled) hname).1 (hkey'.trans hkey)
  exact hfirst before'.length other hlt
    ⟨before', ident', after', htext, rfl, hat', hspelled', hopens'⟩

theorem exists_declaredAt_of_boundParameters? {name : String} (hname : IsAscii name.toList)
    {source params : List Char}
    (h : boundParameters? (Name.key name) (mentions source) = some params) :
    ∃ start, DeclaredAt source name.toList start params := by
  obtain ⟨m, hm, hparams⟩ := List.exists_of_findSome?_eq_some h
  obtain ⟨before, ident, after, rfl, hat, rfl⟩ := mem_mentions_iff.1 hm
  split at hparams
  · next hkey =>
    have hkey' : keyChars ident = keyChars name.toList := String.ofList_injective hkey
    have hspelled := (keyChars_eq_keyChars_iff (isAscii_of_isIdentifier hat.spelled) hname).1 hkey'
    exact ⟨before.length, before, ident, after, rfl, rfl, hat, hspelled,
      parameterText?_eq_some_iff.1 hparams⟩
  · cases hparams

/-- An identifier is taken for a function just when it respells the function's name. -/
theorem boundParameters?_eq_some_iff {name : String} (hname : IsAscii name.toList)
    {source params : List Char} :
    boundParameters? (Name.key name) (mentions source) = some params ↔
      DeclaredFirst source name.toList params := by
  constructor
  · intro h
    obtain ⟨start, hdeclared⟩ := exists_declaredAt_of_boundParameters? hname h
    obtain ⟨first, hfirst⟩ := exists_declaredFirst hdeclared
    have hbound := boundParameters?_of_declaredFirst hname hfirst
    rw [h] at hbound
    exact Option.some.inj hbound ▸ hfirst
  · exact boundParameters?_of_declaredFirst hname

/-! ### Parameters -/

/-- A parameter with its name as it is spelled. -/
def spelledParameter (text : List Char) : Parameter where
  name := String.ofList (bareName ((Text.cutFirst? ':' text).getD (text, [])).1)
  type := (parameterOf text).type

def spelledParameters (params : List Char) : List Parameter :=
  (Bracket.splitTopLevel (Text.collapse params)).map spelledParameter

/-- A parameter with the key in the place of its name. -/
def Parameter.keyed (p : Parameter) : Parameter := { p with name := Name.key p.name }

theorem parametersOf_eq_map_keyed (params : List Char) :
    parametersOf params = (spelledParameters params).map Parameter.keyed := by
  have hkeyed (text : List Char) : parameterOf text = (spelledParameter text).keyed := by
    rw [Parameter.keyed, spelledParameter, Name.key, String.toList_ofList]
    rfl
  rw [parametersOf, spelledParameters, List.map_map]
  exact List.map_congr_left fun text _ => hkeyed text

/-! ### What is found of a function -/

/-- What the check of a source finds of one header function, told by spellings. -/
structure FoundBySpelling (f : FunctionSignature) (source : String) (found : SourceScan) :
    Prop where
  bound_iff : found.bound = [f.name] ↔
    ∃ start params, DeclaredAt source.toList f.name.toList start params
  unbound : (∀ start params, ¬DeclaredAt source.toList f.name.toList start params) → found = {}
  failures_eq : ∀ params, DeclaredFirst source.toList f.name.toList params →
    (∀ a ∈ f.pointerArgs, a.HasAsciiName) →
    (∀ p ∈ spelledParameters params, IsAscii p.name.toList) →
      ∃ missing : List String,
        missing.Pairwise (· < ·) ∧
        (∀ name, name ∈ missing ↔ ∃ a ∈ f.pointerArgs, a.name = name ∧
          ∀ p ∈ spelledParameters params, ¬a.IsCalled p.name.toList) ∧
        found.failures =
          ((spelledParameters params).filter fun p =>
            (∃ a ∈ f.pointerArgs, a.IsCalled p.name.toList) ∧ isReference p.type = false).map
              (fun p => argumentFailure f.name p.keyed) ++
            if missing = [] then [] else [missingFailure f.name missing]

section

variable {f : FunctionSignature} {params : List Char}
  (hcaptured : ∀ a ∈ f.pointerArgs, ∃ declared, a.IsCaptured declared)
  (hargs : ∀ a ∈ f.pointerArgs, a.HasAsciiName)
  (hparams : ∀ p ∈ spelledParameters params, IsAscii p.name.toList)

include hcaptured hargs hparams

theorem name_eq_key_iff_isCalled {a : PointerArg} (ha : a ∈ f.pointerArgs) {p : Parameter}
    (hp : p ∈ spelledParameters params) : a.name = p.keyed.name ↔ a.IsCalled p.name.toList := by
  obtain ⟨declared, hdeclared⟩ := hcaptured a ha
  exact hdeclared.name_eq_iff (hargs a ha) (hparams p hp)

theorem marks_parametersOf :
    marks f (parametersOf params) =
      ((spelledParameters params).filter fun p =>
        (∃ a ∈ f.pointerArgs, a.IsCalled p.name.toList) ∧ isReference p.type = false).map
          fun p => argumentFailure f.name p.keyed := by
  rw [marks, parametersOf_eq_map_keyed, List.filter_map, List.map_map]
  refine congrArg (List.map _) (List.filter_congr fun p hp => ?_)
  have hcalled : (∃ a ∈ f.pointerArgs, a.name = p.keyed.name) ↔
      ∃ a ∈ f.pointerArgs, a.IsCalled p.name.toList :=
    exists_congr fun a => and_congr_right fun ha =>
      name_eq_key_iff_isCalled hcaptured hargs hparams ha hp
  rw [← Bool.coe_iff_coe]
  simp [← hcalled, Parameter.keyed]

theorem mem_missingArgs_parametersOf {name : String} :
    name ∈ missingArgs f (parametersOf params) ↔ ∃ a ∈ f.pointerArgs, a.name = name ∧
      ∀ p ∈ spelledParameters params, ¬a.IsCalled p.name.toList := by
  have hcalled {a : PointerArg} (ha : a ∈ f.pointerArgs) {p : Parameter}
      (hp : p ∈ spelledParameters params) : a.name = p.keyed.name ↔ a.IsCalled p.name.toList :=
    name_eq_key_iff_isCalled hcaptured hargs hparams ha hp
  rw [mem_missingArgs, parametersOf_eq_map_keyed]
  constructor
  · rintro ⟨⟨a, ha, rfl⟩, hnone⟩
    refine ⟨a, ha, rfl, fun p hp h => ?_⟩
    exact hnone p.keyed (List.mem_map_of_mem hp) ((hcalled ha hp).2 h).symm
  · rintro ⟨a, ha, rfl, hnone⟩
    refine ⟨⟨a, ha, rfl⟩, fun q hq hkey => ?_⟩
    obtain ⟨p, hp, rfl⟩ := List.mem_map.1 hq
    exact hnone p hp ((hcalled ha hp).1 hkey.symm)

end

theorem foundBySpelling_scanOf {f : FunctionSignature} (hf : f.hasPointerArgs = true)
    (hname : IsAscii f.name.toList)
    (hcaptured : ∀ a ∈ f.pointerArgs, ∃ declared, a.IsCaptured declared) (source : String) :
    FoundBySpelling f source (scanOf [f] source) := by
  have hfirst {params : List Char} (h : DeclaredFirst source.toList f.name.toList params) :=
    scanOf_singleton_of_bound hf ((boundParameters?_eq_some_iff hname).2 h)
  have hunbound : (∀ start params, ¬DeclaredAt source.toList f.name.toList start params) →
      scanOf [f] source = {} := by
    intro hnone
    apply scanOf_singleton_of_unbound
    rw [Option.eq_none_iff_forall_ne_some]
    intro params hparams
    obtain ⟨start, hdeclared, -⟩ := (boundParameters?_eq_some_iff hname).1 hparams
    exact hnone start params hdeclared
  refine ⟨⟨fun hbound => ?_, ?_⟩, hunbound, ?_⟩
  · by_contra hnone
    rw [hunbound fun start params h => hnone ⟨start, params, h⟩] at hbound
    cases hbound
  · rintro ⟨start, params, hdeclared⟩
    obtain ⟨first, h⟩ := exists_declaredFirst hdeclared
    rw [hfirst h]
  · intro params h hargs hparams
    refine ⟨missingArgs f (parametersOf params), pairwise_missingArgs _ _,
      fun name => mem_missingArgs_parametersOf hcaptured hargs hparams, ?_⟩
    rw [hfirst h, flatMap_parameterFailures, marks_parametersOf hcaptured hargs hparams,
      missingFailures]

end Binding

end HeaderAccord
