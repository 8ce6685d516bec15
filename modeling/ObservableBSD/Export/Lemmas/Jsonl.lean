import ObservableBSD.Export.Lemmas.Envelope

/-!
# Lines of the JSONL exporter
-/

namespace ObservableBSD.Export

open Json

/-! ## Text without control characters -/

theorem clean_append {s t : Text} : Clean (s ++ t) ↔ Clean s ∧ Clean t := by
  constructor
  · intro h
    exact ⟨fun c hc => h c (List.mem_append_left _ hc), fun c hc => h c (List.mem_append_right _ hc)⟩
  · rintro ⟨hs, ht⟩ c hc
    rcases List.mem_append.mp hc with hc | hc
    · exact hs c hc
    · exact ht c hc

instance (s : Text) : Decidable (Clean s) := List.decidableBAll (fun c : Char => 0x20 ≤ c.toNat) s

theorem clean_escapeScalar (ch : Char) : Clean (escapeScalar ch) := by
  unfold escapeScalar
  split
  · decide
  split
  · decide
  split
  · decide
  split
  · decide
  split
  · decide
  split
  · decide
  split
  · decide
  split
  · rename_i hcontrol
    have hall : ∀ v < 32, Clean (text "\\u" ++ List.leftpad 4 '0' (Nat.toDigits 16 v)) := by decide
    exact hall _ hcontrol
  · rename_i hplain
    intro c hc
    rw [List.mem_singleton.mp hc]
    exact Nat.not_lt.mp hplain

theorem clean_escapeJSON (s : Text) : Clean (escapeJSON s) := by
  intro c hc
  obtain ⟨ch, _, hmem⟩ := List.mem_flatMap.mp hc
  exact clean_escapeScalar ch c hmem

theorem clean_joined {parts : List Text} (h : ∀ part ∈ parts, Clean part) : Clean (joined parts) := by
  cases parts with
  | nil => intro c hc; cases hc
  | cons part parts =>
      rw [joined_cons, clean_append]
      refine ⟨h part List.mem_cons_self, fun c hc => ?_⟩
      obtain ⟨other, hother, hmem⟩ := List.mem_flatMap.mp hc
      have hcomma : Clean (text ",") := by decide
      exact clean_append.mpr ⟨hcomma, h other (List.mem_cons_of_mem _ hother)⟩ c hmem

theorem clean_stackJSON {name : Text} (hname : Clean name) (stack : Option (List StackFrame)) :
    Clean (stackJSON name stack) := by
  unfold stackJSON
  split
  · intro c hc; cases hc
  · intro c hc; cases hc
  · have hframe : ∀ part ∈ (List.map (fun frame : StackFrame =>
        text "\"" ++ escapeJSON frame.formatted ++ text "\"") ‹_›), Clean part := by
      intro part hpart
      obtain ⟨frame, _, rfl⟩ := List.mem_map.mp hpart
      have hquote : Clean (text "\"") := by decide
      exact clean_append.mpr ⟨clean_append.mpr ⟨hquote, clean_escapeJSON _⟩, hquote⟩
    simp only [clean_append]
    exact ⟨⟨⟨⟨by decide, hname⟩, by decide⟩, clean_joined hframe⟩, by decide⟩

/-! ## Events -/

def framesMember (name : Text) : Option (List Text) → List (Text × Value)
  | none => []
  | some frames => [(name, .array (frames.map .string))]

def eventObject (said : JsonlEvent) : Value :=
  .object ([(text "time", .string said.time), (text "profile", .string said.profile),
    (text "body", .string said.body)] ++
    (framesMember (text "stack") said.stack ++ framesMember (text "ustack") said.ustack))

theorem readFrames_array (frames : List Text) :
    readFrames (.array (frames.map .string)) = some frames := by
  have hmap : (frames.map Value.string).mapM Value.string? = some (frames.map id) :=
    mapM_map_some fun _ _ => rfl
  rwa [List.map_id] at hmap

theorem optionalField?_array {name : Text} {v : Value} {frames : List Text}
    (h : v.field? name = some (.array (frames.map .string))) :
    optionalField? readFrames name v = some (some frames) := by
  simp only [optionalField?, h, readFrames_array, Option.map_some]

theorem optionalField?_missing {name : Text} {v : Value} (h : v.field? name = none) :
    optionalField? readFrames name v = some none := by
  simp only [optionalField?, h]

theorem eventObject_stack (said : JsonlEvent) :
    optionalField? readFrames (text "stack") (eventObject said) = some said.stack := by
  obtain ⟨time, profile, body, stack, ustack⟩ := said
  cases stack with
  | none => cases ustack with
      | none => exact optionalField?_missing rfl
      | some ustack => exact optionalField?_missing rfl
  | some stack => exact optionalField?_array rfl

theorem eventObject_ustack (said : JsonlEvent) :
    optionalField? readFrames (text "ustack") (eventObject said) = some said.ustack := by
  obtain ⟨time, profile, body, stack, ustack⟩ := said
  cases ustack with
  | none => cases stack with
      | none => exact optionalField?_missing rfl
      | some stack => exact optionalField?_missing rfl
  | some ustack => cases stack with
      | none => exact optionalField?_array rfl
      | some stack => exact optionalField?_array rfl

theorem readEvent_object (said : JsonlEvent) : readEvent (swift.render (eventObject said)) = some said := by
  rw [readEvent, parse_render]
  have hread : (do
      let time ← textField? (text "time") (eventObject said)
      let profile ← textField? (text "profile") (eventObject said)
      let body ← textField? (text "body") (eventObject said)
      let stack ← optionalField? readFrames (text "stack") (eventObject said)
      let ustack ← optionalField? readFrames (text "ustack") (eventObject said)
      return JsonlEvent.mk time profile body stack ustack) = some said := by
    rw [eventObject_stack, eventObject_ustack]
    rfl
  exact hread

theorem render_frames (frames : List Text) :
    swift.render (.array (frames.map .string)) =
      text "[" ++ joined (frames.map fun frame => text "\"" ++ escapeJSON frame ++ text "\"") ++ text "]" := by
  have hframe : swift.render ∘ Value.string = fun frame => text "\"" ++ escapeJSON frame ++ text "\"" := by
    funext frame
    rw [Function.comp_apply, Escaper.render]
    rfl
  rw [Escaper.render, ← joined_render, List.map_map, hframe]
  rfl

/-- The member of a stack, behind the members in front of it. -/
theorem stackJSON_eq (name : Text) (hname : escapeJSON name = name) (stack : Option (List StackFrame)) :
    stackJSON name stack = (framesMember name (framesMeant stack)).flatMap fun m =>
      ',' :: (swift.quote m.1 ++ (':' :: swift.render m.2)) := by
  rcases stack with _ | _ | ⟨frame, frames⟩
  · rfl
  · rfl
  · simp only [framesMeant, framesMember, List.flatMap_singleton, render_frames, swift_quote, hname,
      stackJSON, text, List.append_assoc, List.cons_append, List.nil_append]
    rw [List.map_map]
    rfl

/-- The line of an event is its object and a newline. -/
theorem emitLine_eq (timestampFormatter : Int → Text) {event : ProbeEvent} {said : JsonlEvent}
    (h : event.meant timestampFormatter = some said) :
    emitLine timestampFormatter event = swift.render (eventObject said) ++ text "\n" := by
  by_cases hbody : event.printfBody.getD [] = []
  · simp only [ProbeEvent.meant, if_pos hbody] at h
    cases h
  · simp only [ProbeEvent.meant, if_neg hbody] at h
    cases h
    have hstack := stackJSON_eq (text "stack") (by decide) event.stack
    have hustack := stackJSON_eq (text "ustack") (by decide) event.ustack
    rw [emitLine, if_neg hbody, hstack, hustack]
    simp only [eventObject, Escaper.render, List.cons_append, List.nil_append, Escaper.renderMembers_cons,
      List.flatMap_cons, List.flatMap_append, swift_quote, text, List.append_assoc]
    rfl

theorem emitLine_none (timestampFormatter : Int → Text) {event : ProbeEvent}
    (h : event.meant timestampFormatter = none) : emitLine timestampFormatter event = [] := by
  by_cases hbody : event.printfBody.getD [] = []
  · exact if_pos hbody
  · simp only [ProbeEvent.meant, if_neg hbody] at h
    cases h

/-! ## Lines -/

theorem clean_event (timestampFormatter : Int → Text) {event : ProbeEvent} {said : JsonlEvent}
    (h : event.meant timestampFormatter = some said) : Clean (swift.render (eventObject said)) := by
  have hline := emitLine_eq timestampFormatter h
  by_cases hbody : event.printfBody.getD [] = []
  · simp only [ProbeEvent.meant, if_pos hbody] at h
    cases h
  · have hsplit : emitLine timestampFormatter event = (text "\x7b" ++
        (text "\"time\":\"" ++ escapeJSON (timestampFormatter event.timestamp) ++ text "\",") ++
        (text "\"profile\":\"" ++ escapeJSON event.profileName ++ text "\",") ++
        (text "\"body\":\"" ++ escapeJSON (event.printfBody.getD []) ++ text "\"") ++
        stackJSON (text "stack") event.stack ++ stackJSON (text "ustack") event.ustack ++ text "\x7d") ++
        text "\n" := by
      rw [emitLine, if_neg hbody]
      exact (List.append_assoc _ (text "\x7d") (text "\n")).symm
    rw [hsplit] at hline
    rw [← List.append_cancel_right hline]
    have hname : Clean (text "stack") ∧ Clean (text "ustack") := by decide
    simp only [clean_append]
    exact ⟨⟨⟨⟨⟨⟨by decide, ⟨by decide, clean_escapeJSON _⟩, by decide⟩, ⟨by decide, clean_escapeJSON _⟩,
      by decide⟩, ⟨by decide, clean_escapeJSON _⟩, by decide⟩, clean_stackJSON hname.1 _⟩,
      clean_stackJSON hname.2 _⟩, by decide⟩

theorem splitLines_clean {line : Text} (h : Clean line) (rest : Text) :
    splitLines (line ++ (text "\n" ++ rest)) = line :: splitLines rest := by
  induction line with
  | nil => rfl
  | cons c line ih =>
      have hline : Clean line := fun d hd => h d (List.mem_cons_of_mem _ hd)
      have hne : c ≠ '\n' := by
        rintro rfl
        exact absurd (h _ List.mem_cons_self) (by decide)
      rw [List.cons_append, splitLines, if_neg hne, ih hline]

/-- The lines of the output are the objects of the events that have a body. -/
theorem splitLines_output (timestampFormatter : Int → Text) (events : List ProbeEvent) :
    splitLines (jsonlOutput timestampFormatter events) =
      (events.filterMap (ProbeEvent.meant timestampFormatter)).map fun said =>
        swift.render (eventObject said) := by
  induction events with
  | nil => rfl
  | cons event events ih =>
      rw [jsonlOutput, List.flatMap_cons]
      cases h : event.meant timestampFormatter with
      | none =>
          rw [emitLine_none timestampFormatter h, List.nil_append, List.filterMap_cons_none h]
          exact ih
      | some said =>
          rw [emitLine_eq timestampFormatter h, List.filterMap_cons_some h, List.map_cons, List.append_assoc,
            splitLines_clean (clean_event timestampFormatter h)]
          exact congrArg _ ih

theorem lineOf_emitLine (timestampFormatter : Int → Text) (event : ProbeEvent) :
    LineOf timestampFormatter event (emitLine timestampFormatter event) := by
  unfold LineOf
  cases h : event.meant timestampFormatter with
  | none => exact emitLine_none timestampFormatter h
  | some said =>
      exact ⟨_, emitLine_eq timestampFormatter h, clean_event timestampFormatter h, readEvent_object said⟩

end ObservableBSD.Export
