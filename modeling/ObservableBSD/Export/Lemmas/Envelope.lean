import ObservableBSD.Export.Lemmas.Json
import ObservableBSD.Export.Meaning

/-!
# Envelopes as values
-/

namespace ObservableBSD.Export

open Json

/-! ## Reading lists -/

theorem mapM_map_some {α β γ : Type} {read : β → Option γ} {write : α → β} {meant : α → γ} {elems : List α}
    (h : ∀ elem ∈ elems, read (write elem) = some (meant elem)) :
    (elems.map write).mapM read = some (elems.map meant) := by
  induction elems with
  | nil => rfl
  | cons elem elems ih =>
      rw [List.map_cons, List.mapM_cons, h elem List.mem_cons_self,
        ih fun e he => h e (List.mem_cons_of_mem _ he)]
      rfl

/-! ## Attributes -/

def attributeObject (attr : OtlpAttribute) : Value :=
  match attr.2 with
  | .string s => stringAttribute attr.1 s
  | .int v =>
      .object [(text "key", .string attr.1), (text "value", .object [(text "intValue", intString v)])]
  | .double _ => .null -- not a string and not an integer

theorem readAttribute_object {attr : OtlpAttribute} (h : attr.2.isDouble = false) :
    readAttribute (attributeObject attr) = some attr := by
  obtain ⟨key, value⟩ := attr
  cases value with
  | string s => rfl
  | int v =>
      have hread : intOfChars? (intText v) = some v := intOfChars?_intChars v
      have hstep : readAttribute (attributeObject (key, .int v)) =
          (intOfChars? (intText v)).bind fun v => some (key, OtlpValue.int v) := rfl
      rw [hstep, hread]
      rfl
  | double bits => cases h

/-! ## Envelopes -/

def envelopeObject (resources scopes items : Text) (scopeName : Text) (resource : ResourceAttributes)
    (values : List Value) : Value :=
  .object [(resources, .array [.object [
    (text "resource", .object [(text "attributes",
      .array ((resourceMeant resource).map attributeObject))]),
    (scopes, .array [.object [
      (text "scope", .object [(text "name", .string scopeName),
        (text "version", .string resource.serviceVersion)]),
      (items, .array values)]])]])]

theorem resourceMeant_strings (resource : ResourceAttributes) :
    ∀ attr ∈ resourceMeant resource, attr.2.isDouble = false := by
  intro attr hattr
  obtain ⟨_, _, rfl⟩ := List.mem_map.mp hattr
  rfl

theorem readAttributes_map {attrs : List OtlpAttribute} (h : ∀ attr ∈ attrs, attr.2.isDouble = false) :
    (attrs.map attributeObject).mapM readAttribute = some attrs := by
  have hmap := mapM_map_some fun attr hattr => readAttribute_object (h attr hattr)
  rwa [List.map_id'] at hmap

theorem readEnvelope_object {α : Type} {read : Value → Option α} {resources scopes items : Text}
    (hscopes : scopes ≠ text "resource") (hitems : items ≠ text "scope") (scopeName : Text)
    (resource : ResourceAttributes) {values : List Value} {meant : List α}
    (hread : values.mapM read = some meant) :
    readEnvelope read resources scopes items
        (envelopeObject resources scopes items scopeName resource values) =
      some { resource := resourceMeant resource, scopeName, scopeVersion := resource.serviceVersion,
             items := meant } := by
  have hattrs := readAttributes_map (resourceMeant_strings resource)
  simp only [readEnvelope, envelopeObject, Value.field?_self, Value.field?_ne hscopes.symm,
    Value.field?_ne hitems.symm, Value.array?, listField?, textField?, Option.bind_eq_bind, Option.bind_some,
    hattrs, hread]
  rfl

theorem render_resourceMeant (resource : ResourceAttributes) :
    swift.renderElements ((resourceMeant resource).map attributeObject) =
      resourceAttributesJSON resource := by
  rw [← joined_render, resourceAttributesJSON, resourceMeant, List.map_map, List.map_map]
  congr 1
  apply List.map_congr_left
  intro attr _
  exact render_stringAttribute attr.1 attr.2

/-- The text of an envelope: the names of its lists and the values between fixed pieces. -/
theorem render_envelopeObject (resources scopes items : Text) (scopeName : Text)
    (resource : ResourceAttributes) (values : List Value) :
    swift.render (envelopeObject resources scopes items scopeName resource values) =
      text "\x7b" ++ swift.quote resources ++ text ":[\x7b\"resource\":\x7b\"attributes\":[" ++
        resourceAttributesJSON resource ++ text "]\x7d," ++ swift.quote scopes ++ text ":" ++
        scopeJSON scopeName resource ++ swift.quote items ++ text ":[" ++
        joined (values.map swift.render) ++ text "]\x7d]\x7d]\x7d" := by
  rw [joined_render, ← render_resourceMeant]
  simp only [envelopeObject, Escaper.render, Escaper.renderMembers, Escaper.renderElements, scopeJSON,
    swift_quote, text, List.append_assoc, List.cons_append, List.nil_append]
  rfl

/-! ## Records -/

def recordObject (record : OtlpRecord) : Value :=
  .object [(text "timeUnixNano", intString record.timeUnixNano),
    (text "observedTimeUnixNano", intString record.observedTimeUnixNano),
    (text "severityNumber", .number (.ofInt record.severityNumber)),
    (text "body", .object [(text "stringValue", .string record.body)]),
    (text "attributes", .array (record.attributes.map attributeObject))]

theorem intOfChars?_intText (v : Int) : intOfChars? (intText v) = some v := intOfChars?_intChars v

theorem readRecord_object {record : OtlpRecord} (h : ∀ attr ∈ record.attributes, attr.2.isDouble = false) :
    readRecord (recordObject record) = some record := by
  have hread : readRecord (recordObject record) =
      (intOfChars? (intText record.timeUnixNano)).bind fun time =>
      (intOfChars? (intText record.observedTimeUnixNano)).bind fun observed =>
      (intOfChars? (intChars record.severityNumber)).bind fun severity =>
      ((record.attributes.map attributeObject).mapM readAttribute).bind fun attributes =>
        some (OtlpRecord.mk time observed severity record.body attributes) := rfl
  rw [hread, readAttributes_map h]
  simp only [intOfChars?_intText, intOfChars?_intChars, Option.bind_some]

theorem joined_concat (parts : List Text) (part : Text) :
    joined (parts ++ [part]) = joined parts ++ ((if parts = [] then [] else text ",") ++ part) := by
  cases parts with
  | nil => rfl
  | cons first parts =>
      rw [List.cons_append, joined_cons, joined_cons, List.flatMap_append, if_neg (List.cons_ne_nil _ _)]
      simp

theorem render_attributeObject (doubleText : UInt64 → Text) {attr : Text × AttributeValue}
    (h : attr.2.meant.isDouble = false) :
    swift.render (attributeObject (attr.1, attr.2.meant)) = attributeJSON doubleText attr := by
  obtain ⟨key, value⟩ := attr
  cases value with
  | string s =>
      simp only [attributeObject, AttributeValue.meant, stringAttribute, Escaper.render,
        Escaper.renderMembers, swift_quote, attributeJSON, text, List.append_assoc, List.cons_append,
        List.nil_append]
      rfl
  | int n =>
      simp only [attributeObject, AttributeValue.meant, intString, Escaper.render, Escaper.renderMembers,
        swift_quote, escapeJSON_intText, attributeJSON, text, List.append_assoc, List.cons_append,
        List.nil_append]
      rfl
  | double bits => cases h

theorem render_dropsAttribute (scopeName : Text) (drops : UInt64) :
    swift.render (attributeObject (scopeName ++ text ".drops", .int drops.toNat)) =
      text "\x7b\"key\":\"" ++ escapeJSON scopeName ++ text ".drops\",\"value\":\x7b\"intValue\":\"" ++
        natText drops.toNat ++ text "\"\x7d\x7d" := by
  simp only [attributeObject, intString, Escaper.render, Escaper.renderMembers, swift_quote,
    escapeJSON_append, escapeJSON_intText, natText_eq, text, List.append_assoc, List.cons_append,
    List.nil_append]
  rfl

/-- The attributes of a record and the one for the drops, with the commas between them. -/
theorem render_attributes (doubleText : UInt64 → Text) (scopeName : Text) {record : LogRecord}
    (h : record.NoDoubles) (drops : UInt64) :
    swift.renderElements ((record.meant.withDrops scopeName drops).attributes.map attributeObject) =
      enumerated (fun _ attr => attributeJSON doubleText attr) record.attributes ++
        (if 0 < drops then
          (if record.attributes = [] then [] else text ",") ++
            (text "\x7b\"key\":\"" ++ escapeJSON scopeName ++
              text ".drops\",\"value\":\x7b\"intValue\":\"" ++ natText drops.toNat ++
              text "\"\x7d\x7d")
        else []) := by
  have hattrs : (record.meant.attributes.map attributeObject).map swift.render =
      record.attributes.map (attributeJSON doubleText) := by
    rw [LogRecord.meant, List.map_map, List.map_map]
    exact List.map_congr_left fun attr hattr => render_attributeObject doubleText (h attr hattr)
  rw [← joined_render, enumerated_const, OtlpRecord.withDrops, List.map_append, List.map_append, hattrs]
  by_cases hdrops : 0 < drops
  · rw [dropsAttributes, if_pos hdrops, if_pos hdrops, List.map_singleton, List.map_singleton,
      joined_concat, render_dropsAttribute]
    simp only [List.map_eq_nil_iff]
  · rw [dropsAttributes, if_neg hdrops, if_neg hdrops]
    simp

theorem render_recordObject (doubleText : UInt64 → Text) (scopeName : Text) {record : LogRecord}
    (h : record.NoDoubles) (drops : UInt64) :
    swift.render (recordObject (record.meant.withDrops scopeName drops)) =
      buildRecordJSON doubleText scopeName record drops := by
  have hattrs := render_attributes doubleText scopeName h drops
  simp only [recordObject, intString, Escaper.render, Escaper.renderMembers, hattrs, swift_quote,
    buildRecordJSON, text, List.append_assoc, List.cons_append, List.nil_append]
  simp only [OtlpRecord.withDrops, LogRecord.meant, escapeJSON_intText]
  rfl

/-! ## Logs -/

theorem withDrops_zero (scopeName : Text) (record : OtlpRecord) : record.withDrops scopeName 0 = record := by
  have hnone : dropsAttributes scopeName 0 = [] := rfl
  rw [OtlpRecord.withDrops, hnone, List.append_nil]

/-- The records, of which the first reports the drops. -/
theorem render_records (doubleText : UInt64 → Text) (scopeName : Text) {records : List LogRecord}
    (h : ∀ record ∈ records, record.NoDoubles) (drops : UInt64) :
    joined (((withDrops scopeName drops (records.map LogRecord.meant)).map recordObject).map swift.render) =
      enumerated (fun i record => buildRecordJSON doubleText scopeName record
        (if i = 0 ∧ 0 < drops then drops else 0)) records := by
  rw [enumerated_eq_joined]
  cases records with
  | nil => rfl
  | cons record records =>
      have hfirst : (if 0 = 0 ∧ 0 < drops then drops else 0) = drops := by
        by_cases hdrops : 0 < drops
        · simp [hdrops]
        · simpa [hdrops] using (UInt64.le_zero_iff.mp (UInt64.not_lt.mp hdrops)).symm
      have hrest : ∀ x ∈ records.zipIdx 1, buildRecordJSON doubleText scopeName x.1
          (if x.2 = 0 ∧ 0 < drops then drops else 0) = swift.render (recordObject x.1.meant) := by
        intro x hx
        have hpos : 1 ≤ x.2 := List.le_snd_of_mem_zipIdx hx
        have hmem : x.1 ∈ records := List.fst_mem_of_mem_zipIdx hx
        have hlater := render_recordObject doubleText scopeName (h _ (List.mem_cons_of_mem _ hmem)) 0
        rw [if_neg (by omega), ← hlater, withDrops_zero]
      rw [List.zipIdx_cons, List.map_cons, List.map_cons, withDrops, List.map_cons, List.map_cons,
        List.map_map, List.map_map, List.map_congr_left hrest]
      congr 2
      · exact (render_recordObject doubleText scopeName (h _ List.mem_cons_self) drops).trans
          (congrArg _ hfirst.symm)
      · rw [map_zipIdx_fst fun record : LogRecord => swift.render (recordObject record.meant)]
        rfl

theorem render_logs (doubleText : UInt64 → Text) (scopeName : Text) (resource : ResourceAttributes)
    {records : List LogRecord} (h : ∀ record ∈ records, record.NoDoubles) (drops : UInt64) :
    swift.render (envelopeObject (text "resourceLogs") (text "scopeLogs") (text "logRecords") scopeName
        resource ((withDrops scopeName drops (records.map LogRecord.meant)).map recordObject)) =
      buildEnvelope doubleText scopeName resource records drops := by
  rw [render_envelopeObject, render_records doubleText scopeName h]
  simp only [buildEnvelope, swift_quote, text, List.append_assoc, List.cons_append, List.nil_append]
  rfl

/-- The records with the drops have no doubles either. -/
theorem withDrops_strings {records : List LogRecord} (h : ∀ record ∈ records, record.NoDoubles)
    (scopeName : Text) (drops : UInt64) :
    ∀ record ∈ withDrops scopeName drops (records.map LogRecord.meant),
      ∀ attr ∈ record.attributes, attr.2.isDouble = false := by
  have hmeant : ∀ record ∈ records.map LogRecord.meant, ∀ attr ∈ record.attributes,
      attr.2.isDouble = false := by
    intro record hrecord attr hattr
    obtain ⟨record, hmem, rfl⟩ := List.mem_map.mp hrecord
    obtain ⟨attr, hin, rfl⟩ := List.mem_map.mp hattr
    exact h record hmem attr hin
  have hdrops : ∀ attr ∈ dropsAttributes scopeName drops, attr.2.isDouble = false := by
    intro attr hattr
    unfold dropsAttributes at hattr
    split at hattr
    · rw [List.mem_singleton.mp hattr]
      rfl
    · cases hattr
  intro record hrecord
  cases records with
  | nil => cases hrecord
  | cons first records =>
      rw [List.map_cons, withDrops] at hrecord
      rw [List.map_cons] at hmeant
      rcases List.mem_cons.mp hrecord with rfl | hrecord
      · intro attr hattr
        rcases List.mem_append.mp hattr with hattr | hattr
        · exact hmeant _ List.mem_cons_self attr hattr
        · exact hdrops attr hattr
      · exact hmeant record (List.mem_cons_of_mem _ hrecord)

end ObservableBSD.Export
