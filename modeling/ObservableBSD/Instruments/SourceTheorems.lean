import ObservableBSD.Instruments.Lemmas.ExecnameClause
import ObservableBSD.Instruments.Lemmas.KeyNames
import ObservableBSD.Instruments.Lemmas.KeyValue
import ObservableBSD.Instruments.Lemmas.Parameters

/-!
# Results about the texts that the commands build and read
-/

namespace ObservableBSD.Instruments

open Base DLang Export

/-! ## The clause of the name -/

/-- A name is kept in its clause exactly when it has no backslash and each of its quotes is a `Character` of its own:
only these are escaped. -/
theorem execnameKept_iff (boundary : CharacterBoundary) (e : Escapes) (execname : Text) (hnl : '\n' ∉ execname) :
    ExecnameKept boundary e execname ↔ '\\' ∉ execname ∧ QuotesAlone boundary execname := by
  constructor
  · rintro ⟨body, hdenotes, hlex⟩
    have halone := hlex []
    rw [List.append_nil, lex_nil] at halone
    obtain ⟨hpaired, hbody⟩ := paired_of_lex halone
    obtain rfl : body = escaped (scalars boundary execname) := List.append_cancel_right (List.cons.inj hbody).2
    have hback : '\\' ∉ execname := fun hback => not_denotes_of_backslash hback hpaired hdenotes
    exact ⟨hback, fun front behind heq => (hpaired.quotes front behind heq).1 (even_backslashes fun hmem =>
      hback (heq ▸ List.mem_append_left _ hmem))⟩
  · rintro ⟨hback, halone⟩
    exact ⟨_, denotes_escaped e hback halone, lex_execnameClause_of_paired (quotesPaired_of_plain hback hnl halone)⟩

theorem execnameKept_nginx : ExecnameKept accentJoining.boundary cEscapes (text "nginx") := by
  refine (execnameKept_iff accentJoining.boundary cEscapes (text "nginx") (by decide)).2
    ⟨by decide, fun front behind heq => ?_⟩
  have hmem : '"' ∈ text "nginx" := heq ▸ List.mem_append_right _ List.mem_cons_self
  exact absurd hmem (by decide)

/-- Behind a backslash at the end of the name, the quote that should end the constant is one of its characters. -/
theorem backslash_not_execnameKept :
    ¬ ∀ execname : Text, '\n' ∉ execname → ExecnameKept accentJoining.boundary cEscapes execname := by
  intro h
  obtain ⟨body, _, hlex⟩ := h (text "a\\") (by decide)
  have hnone : lex (execnameClause accentJoining.boundary (text "a\\") ++ []) = none := rfl
  rw [hlex [], lex_nil] at hnone
  cases hnone

/-! ## Parameters of a profile -/

/-- The values are put in when every placeholder is on boundaries. For the only one without a value nothing less will
do. -/
theorem parametersSubstituted_of_onBoundaries (boundary : CharacterBoundary) (p : Profile)
    (parameters : Text → Option Text) :
    (PlaceholdersOnBoundaries boundary parameters [] p.source → ParametersSubstituted boundary p parameters) ∧
    ∀ front name behind t, p.source = front ++ (placeholder name ++ behind) → IsIdent name → parameters name = none →
      (∀ other, HasPlaceholder front other → parameters other ≠ none) → Substitutes parameters behind t →
      PlaceholdersOnBoundaries boundary parameters (front ++ placeholder name) behind →
      (ParametersSubstituted boundary p parameters ↔ OnBoundaries boundary front name t) := by
  constructor
  · intro h
    constructor
    · intro i nanos
      refine ⟨?_, fun hmissing => Profile.render_of_missing hmissing h i nanos⟩
      rintro ⟨name, hthrown⟩
      rcases exists_substitutes_or_missing parameters p.source with ⟨t, ht⟩ | hmissing
      · obtain ⟨suffix, hrender, _⟩ := Profile.render_of_substitutes ht h i nanos
        rw [hrender] at hthrown
        cases hthrown
      · exact hmissing
    · intro hvalues
      rcases exists_substitutes_or_missing parameters p.source with ⟨t, ht⟩ | ⟨name, hhas, hnone⟩
      · refine ⟨t, fun t' => ⟨ht.unique, fun heq => heq ▸ ht⟩, fun i hunmarked => ?_⟩
        obtain ⟨suffix, hrender, hsuffix⟩ := Profile.render_of_substitutes ht h i none
        rw [hrender, hsuffix rfl, List.append_nil, i.render_of_unmarked hunmarked]
      · exact absurd hnone (hvalues name hhas)
  · intro front name behind t hsource hname hnone hfront hsub hbehind
    have hhas : HasPlaceholder p.source name :=
      ⟨hname, hsource ▸ (List.infix_append' front (placeholder name) behind)⟩
    constructor
    · intro h
      by_contra hleft
      obtain ⟨other, hthrown⟩ := (h.throws {} none).2 ⟨name, hhas, hnone⟩
      obtain ⟨r, hrender⟩ := Profile.render_of_left hsource hname hsub hbehind hfront hleft
      rw [hrender] at hthrown
      cases hthrown
    · intro hb
      refine ⟨fun i nanos => iff_of_true ⟨name, ?_⟩ ⟨name, hhas, hnone⟩, fun hvalues =>
        absurd hnone (hvalues name hhas)⟩
      exact Profile.render_of_onBoundaries hsource hname hsub hbehind hb hnone i nanos

def kinst : Profile where
  name := text "kinst"
  source := text "kinst::$\x7bfunc\x7d:$\x7boffset\x7d"

/-- Every scalar of the text is a `Character`. -/
theorem kinst_parametersSubstituted : ParametersSubstituted (fun _ _ => true) kinst
    (fun name => if name = text "func" then some (text "vm_fault")
      else if name = text "offset" then some (text "4") else none) :=
  (parametersSubstituted_of_onBoundaries (fun _ _ => true) kinst _).1 fun _ _ _ _ _ _ _ => ⟨rfl, rfl, rfl, rfl⟩

/-- An accent is part of the `Character` that stands in front of it. -/
def accentBoundary : CharacterBoundary := fun front behind => front.isEmpty || behind.head? != some '\u0301'

/-- With an accent behind it, a placeholder without a value is no error. -/
theorem accent_not_parametersSubstituted :
    ¬ ∀ p parameters, ParametersSubstituted accentBoundary p parameters := by
  intro h
  have hprofile := h ⟨text "p", text "$\x7ba\x7d\u0301"⟩ fun _ => none
  have hhas : HasPlaceholder (text "$\x7ba\x7d\u0301") (text "a") := by
    refine ⟨⟨rfl, fun d hd => by cases hd⟩, ?_⟩
    exact (List.prefix_append (placeholder (text "a")) ['\u0301']).isInfix
  obtain ⟨name, hthrown⟩ := (hprofile.throws {} none).2 ⟨text "a", hhas, rfl⟩
  have hrender : Profile.render accentBoundary ⟨text "p", text "$\x7ba\x7d\u0301"⟩ (fun _ => none) {} none =
      .ok (text "$\x7ba\x7d\u0301") := by decide
  rw [hrender] at hthrown
  cases hthrown

/-! ## Keys and values -/

/-- A dictionary has what stands behind the first equals signs exactly when the last text about each key agrees. -/
theorem keyValues_iff (boundary : CharacterBoundary) (paramArgs : List Text) (env : Text → Option Text) :
    (LastValues boundary paramArgs (parseParams boundary paramArgs) ↔ LastAgree boundary paramArgs) ∧
    (LastValues boundary (pairsOf boundary (env (text "OTEL_RESOURCE_ATTRIBUTES")))
        (OTelEnvironment.init boundary env).resourceAttributes ↔
      LastAgree boundary (pairsOf boundary (env (text "OTEL_RESOURCE_ATTRIBUTES")))) ∧
    (LastValues boundary (pairsOf boundary (env (text "OTEL_EXPORTER_OTLP_HEADERS")))
        (OTelEnvironment.init boundary env).headers ↔
      LastAgree boundary (pairsOf boundary (env (text "OTEL_EXPORTER_OTLP_HEADERS")))) :=
  ⟨lastValues_foldl_iff _, lastValues_environmentPairs_iff _, lastValues_environmentPairs_iff _⟩

/-- An empty value is accepted, and the key is not in the dictionary. -/
theorem emptyValue_not_lastValues : ¬ ∀ c : WatchCommand, c.validate accentJoining.boundary = .ok () →
    LastValues accentJoining.boundary c.paramArgs (parseParams accentJoining.boundary c.paramArgs) := by
  intro h
  have hlaw := h { profile := some (text "kinst"), paramArgs := [text "func="] } (by decide) (text "func") []
  have hsome : parseParams accentJoining.boundary [text "func="] (text "func") = some [] :=
    hlaw.2 ⟨by decide, [], text "func=", [], rfl, by decide, fun raw hraw => by cases hraw⟩
  have hmissing : parseParams accentJoining.boundary [text "func="] (text "func") = none := by decide
  rw [hmissing] at hsome
  cases hsome

/-! ## Names of aggregation keys -/

/-- Where the first use is found, no comma stands in a key and nothing joins the ends of the keys, the names line up
exactly when no bracket ends the keys too early and each key is plain. -/
theorem keysLineUp_iff_plain (j : Joining) (beyond : Char → Bool) {source name : Text} (u : FirstUse source name)
    (hreached : u.Reached beyond) (hcommas : u.Commas) (hunjoined : u.Unjoined j.boundary) :
    KeysLineUp (parseAggregationKeyNames j.boundary beyond source) name u.elements ↔
      u.Closes ∧ ∀ element ∈ u.elements, PlainKey j.boundary element := by
  have hnames := parseAggregationKeyNames_of_reached u hreached hcommas hunjoined
  have hplain (i : Nat) {element : Element} (helement : element ∈ u.elements) :
      keyName j.boundary i (trimmingCharacters whitespaces (pieceOf element)) = documentedName i element ↔
        PlainKey j.boundary element := by
    obtain ⟨hwhole, c, t, hc, hlex⟩ := u.keys.lexTo_of_mem helement
    exact keyName_eq_documentedName_iff j.boundary i hwhole hc hlex (u.spaces element helement)
  by_cases hcloses : u.Closes
  · rw [seenElements_eq_self hcloses] at hnames
    rw [keysLineUp_iff hnames, and_iff_right hcloses, List.forall_mem_iff_getElem]
    exact forall₂_congr fun i hi => hplain i (List.getElem_mem hi)
  · refine iff_of_false (fun hlines => hcloses ?_) fun h => hcloses h.1
    have heq := Option.some.inj (hnames.symm.trans hlines.names)
    refine closes_of_length_seenElements ?_
    simpa using congrArg List.length heq

def copyinstrKey : Element where
  text := text "copyinstr(arg0, 64)"
  tokens := [.word (text "copyinstr"), .opening '(', .word (text "arg0"), .comma, .word (text "64"), .closing ')']

def execnameKey : Element where
  text := text "execname"
  tokens := [.word (text "execname")]

theorem lexTo_copyinstrKey (rest : Text) :
    LexTo (copyinstrKey.text ++ ',' :: rest) copyinstrKey.tokens (',' :: rest) := by
  obtain ⟨toks, hlex, htoks⟩ : ∃ toks, LexTo (copyinstrKey.text ++ ',' :: rest) toks (',' :: rest) ∧
      toks = copyinstrKey.tokens :=
    ⟨_, .step rfl (.step rfl (.step rfl (.step rfl (.step rfl (.step rfl (.step rfl (.refl _))))))), rfl⟩
  exact htoks ▸ hlex

theorem lexTo_execnameKey (rest : Text) : LexTo (execnameKey.text ++ ']' :: rest) execnameKey.tokens (']' :: rest) := by
  obtain ⟨toks, hlex, htoks⟩ : ∃ toks, LexTo (execnameKey.text ++ ']' :: rest) toks (']' :: rest) ∧
      toks = execnameKey.tokens :=
    ⟨_, .step rfl (.refl _), rfl⟩
  exact htoks ▸ hlex

theorem spaces_copyinstrKey : ∀ c, .word [c] ∈ copyinstrKey.tokens → whitespaces c = false := by
  simp [copyinstrKey, text]

theorem spaces_execnameKey : ∀ c, .word [c] ∈ execnameKey.tokens → whitespaces c = false := by
  simp [execnameKey, text]

/-- The first token of a source is a use, with its list right behind it. -/
def FirstUse.ofStart {name list rest : Text} {elements : List Element} (hident : IsIdent name)
    (hkeys : Elements list elements rest)
    (hspaces : ∀ element ∈ elements, ∀ c, .word [c] ∈ element.tokens → whitespaces c = false) :
    FirstUse ('@' :: (name ++ '[' :: list)) name where
  front := []
  gap := []
  list
  elements
  rest
  ident := hident
  source_eq := rfl
  first := ⟨[], .refl _, List.not_mem_nil⟩
  token := lexStep_aggregation hident list
  blanks := .refl _
  keys := hkeys
  spaces := hspaces

theorem elements_counts : Elements (execnameKey.text ++ ']' :: text " = count();") [execnameKey] (text " = count();") :=
  .last ⟨List.cons_ne_nil _ _, rfl⟩ (lexTo_execnameKey _)

def countsUse : FirstUse ('@' :: (text "counts" ++ '[' :: (execnameKey.text ++ ']' :: text " = count();")))
    (text "counts") :=
  .ofStart ⟨rfl, List.all_eq_true.1 rfl⟩ elements_counts (List.forall_mem_singleton.2 spaces_execnameKey)

theorem elements_slow : Elements (copyinstrKey.text ++ ',' :: (execnameKey.text ++ ']' :: text " = count();"))
    [copyinstrKey, execnameKey] (text " = count();") :=
  .cons ⟨List.cons_ne_nil _ _, rfl⟩ (lexTo_copyinstrKey _) elements_counts

def slowUse : FirstUse ('@' :: (text "slow" ++ '[' :: (copyinstrKey.text ++ ',' :: (execnameKey.text ++ ']' ::
    text " = count();")))) (text "slow") :=
  .ofStart ⟨rfl, List.all_eq_true.1 rfl⟩ elements_slow
    (List.forall_mem_cons.2 ⟨spaces_copyinstrKey, List.forall_mem_singleton.2 spaces_execnameKey⟩)

theorem keysLineUp_counts : KeysLineUp (parseAggregationKeyNames accentJoining.boundary (fun _ => false)
    ('@' :: (text "counts" ++ '[' :: (execnameKey.text ++ ']' :: text " = count();")))) (text "counts")
    [execnameKey] := by
  have hreached : countsUse.Reached fun _ => false :=
    ⟨rfl, fun before s m hs hne _ => absurd (List.append_eq_nil_iff.1 hs.symm).2 hne⟩
  have hkey : PlainKey accentJoining.boundary execnameKey := by
    refine ⟨fun w hw _ => ?_, fun s hs => ?_, fun _ => ?_⟩
    · cases hw
      exact ⟨[], [], by decide, by simp⟩
    · cases hs
    · rintro ⟨before, after, heq, -⟩
      have hmem : '"' ∈ pieceOf execnameKey := heq ▸ List.mem_append_right _ List.mem_cons_self
      exact absurd hmem (by decide)
  have hunjoined : countsUse.Unjoined accentJoining.boundary := ⟨by decide, by decide, by decide⟩
  have hcomma : ',' ∉ pieceOf execnameKey := by decide
  exact (keysLineUp_iff_plain accentJoining _ countsUse hreached (List.forall_mem_singleton.2 hcomma) hunjoined).2
    ⟨List.forall_mem_nil _, List.forall_mem_singleton.2 hkey⟩

/-- `@slow[copyinstr(arg0, 64),execname] = count();` has two keys, and the comma between the arguments of the call is
taken for one between keys. -/
theorem copyinstr_not_keysLineUp : ¬ KeysLineUp (parseAggregationKeyNames accentJoining.boundary (fun _ => false)
    ('@' :: (text "slow" ++ '[' :: (copyinstrKey.text ++ ',' :: (execnameKey.text ++ ']' :: text " = count();")))))
    (text "slow") slowUse.elements := fun h => absurd h.names (by decide)

end ObservableBSD.Instruments
