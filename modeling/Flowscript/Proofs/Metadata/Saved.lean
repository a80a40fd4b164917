import Flowscript.Metadata.Annotation
import Flowscript.Proofs.Table
import Mathlib.Data.List.Forall2

/-!
# What is saved with an image

Chunks and texts are added to the metadata of an image, and the chunks are read, in any order and
any number of times. A ledger beside the metadata holds what was read last and what was added since.
Each reading gives the chunks of the texts added since, one for each key, then what was read last,
then the chunks added since. Nothing is lost and nothing comes twice, whether or not a script can be
made and a source can be decoded.
-/

namespace Flowscript

open List Option

namespace Chunk

theorem exists_ofText (key : String) (value : Value) (zip : Bool)
    (hkey : key.toList.all isLatin = true) (hvalue : value.text?.isSome = true) :
    ∃ c, ofText key value zip = .ok c := by
  obtain ⟨text, htext⟩ := isSome_iff_exists.mp hvalue
  unfold ofText
  simp only [htext, hkey, Bool.not_true, Bool.false_eq_true, if_false]
  split
  · exact ⟨_, rfl⟩
  · split <;> exact ⟨_, rfl⟩

end Chunk

namespace Annotation

inductive Step where
  | add (c : Chunk)
  | addText (key : String) (value : Value) (zip : Bool)
  | read (settings : AnnotationSettings) (nodesInfo : Value) (node : Option Value)

/-- A text to be saved, by its key, with the wish to be compressed, can have a chunk. -/
def Savable (held : String × Value × Bool) : Prop :=
  held.1.toList.all Chunk.isLatin = true ∧ held.2.1.text?.isSome = true

instance : DecidablePred Savable := fun _ => inferInstanceAs (Decidable (_ ∧ _))

def Step.Proper : Step → Prop
  | .addText key value zip => Savable (key, value, zip)
  | .add _ | .read .. => True

instance : DecidablePred Step.Proper
  | .addText .. => inferInstanceAs (Decidable (Savable _))
  | .add _ | .read .. => inferInstanceAs (Decidable True)

def perform (a : Annotation) : Step → Annotation
  | .add c => a.add c
  | .addText key value zip => a.addText key value zip
  | .read settings nodesInfo node => (a.read settings nodesInfo node).2.2

/-- What is known from outside: the chunks that were read last, and the chunks and the texts that
were added since, in the order in which they were added. -/
structure Ledger where
  shown : List Chunk
  added : List Chunk
  texts : List (String × Value × Bool)

namespace Ledger

def enter (l : Ledger) (a : Annotation) : Step → Ledger
  | .add c => { l with added := l.added ++ [c] }
  | .addText key value zip => { l with texts := l.texts ++ [(key, value, zip)] }
  | .read settings nodesInfo node =>
    match (a.read settings nodesInfo node).2.1 with
    | .ok chunks => ⟨chunks, [], []⟩
    | .error _ => l

def pending (l : Ledger) : List (String × Value × Bool) := Table.lastEntries l.texts

end Ledger

def after (steps : List Step) : Annotation × Ledger :=
  steps.foldl (fun p step => (p.1.perform step, p.2.enter p.1 step)) (empty, ⟨[], [], []⟩)

def decodedSource? (texts : List (String × Value × Bool)) : Option (String × Value × Bool) := do
  let held ← Table.find? sourceKey texts
  let source ← (Json.parse (← held.1.text?)).toOption
  if source.text?.isSome then some (sourceKey, source, held.2) else none

/-- What is saved for some texts: a source that can be decoded comes first and decoded, and the
others follow as they are. -/
def toSave (texts : List (String × Value × Bool)) : List (String × Value × Bool) :=
  match decodedSource? texts with
  | some source => source :: texts.filter fun held => held.1 != sourceKey
  | none => texts

def scriptToSave (texts : List (String × Value × Bool)) (settings : AnnotationSettings)
    (nodesInfo : Value) (node : Option Value) : Option (String × Value × Bool) :=
  if isTrue settings.saveScript && (Table.has "workflow" texts || Table.has "prompt" texts) then
    let ends := match node with
      | some id => Value.list [id]
      | none => .null
    ((script ⟨[], texts⟩ settings nodesInfo ends).script.toOption).map fun made =>
      ("ComfyScript", .str made.1, made.2)
  else none

/-- The chunks are those of the texts, one for each and in order. -/
def Written (texts : List (String × Value × Bool)) (chunks : List Chunk) : Prop :=
  List.Forall₂ (fun held c => Chunk.ofText held.1 held.2.1 held.2.2 = .ok c) texts chunks

variable {a : Annotation} {texts : List (String × Value × Bool)}

theorem textChunks_of_written {chunks : List Chunk} (h : Written texts chunks) :
    textChunks texts = (chunks, none) := by
  induction h with
  | nil => rfl
  | cons hfirst _ ih => simp only [textChunks, hfirst, ih]

theorem exists_written (h : ∀ held ∈ texts, Savable held) : ∃ chunks, Written texts chunks := by
  induction texts with
  | nil => exact ⟨[], .nil⟩
  | cons held rest ih =>
    rw [forall_mem_cons] at h
    obtain ⟨c, hc⟩ := Chunk.exists_ofText held.1 held.2.1 held.2.2 h.1.1 h.1.2
    obtain ⟨chunks, hchunks⟩ := ih h.2
    exact ⟨c :: chunks, .cons hc hchunks⟩

theorem readSource_of_none (h : decodedSource? texts = none) : readSource texts = ([], texts) := by
  unfold readSource
  unfold decodedSource? at h
  cases hfind : Table.find? sourceKey texts with
  | none => rfl
  | some held =>
    obtain ⟨value, zip⟩ := held
    cases htext : value.text? with
    | none => simp [htext]
    | some text =>
      cases hparse : Json.parse text with
      | error e => simp [htext, hparse, Except.toOption]
      | ok source =>
        have hsource : source.text? = none := by
          simpa [hfind, htext, hparse, Except.toOption] using h
        simp [htext, hparse, Except.toOption, Chunk.ofText, hsource]

theorem readSource_of_some {source : String × Value × Bool} (h : decodedSource? texts = some source) :
    ∃ c, Chunk.ofText source.1 source.2.1 source.2.2 = .ok c ∧
      readSource texts = ([c], texts.filter fun held => held.1 != sourceKey) := by
  unfold decodedSource? at h
  obtain ⟨⟨raw, zip⟩, hfind, h⟩ := bind_eq_some_iff.mp h
  obtain ⟨text, htext, h⟩ := bind_eq_some_iff.mp h
  obtain ⟨value, hparse, h⟩ := bind_eq_some_iff.mp h
  split at h
  case isFalse => cases h
  case isTrue hvalue =>
    obtain rfl := some.inj h
    obtain ⟨c, hc⟩ := Chunk.exists_ofText sourceKey value zip (by decide) hvalue
    have hchunk : (Chunk.ofText sourceKey value zip).toOption = some c := by rw [hc]; rfl
    refine ⟨c, hc, ?_⟩
    simp only [readSource, hfind, htext, hparse, hchunk, bind_eq_bind, bind_some]
    rfl

theorem written_readSource (h : ∀ held ∈ texts, Savable held) :
    ∃ added, Written (toSave texts) ((readSource texts).1 ++ added) ∧
      textChunks (readSource texts).2 = (added, none) := by
  unfold toSave
  cases hsource : decodedSource? texts with
  | none =>
    obtain ⟨added, hadded⟩ := exists_written h
    rw [readSource_of_none hsource]
    exact ⟨added, hadded, textChunks_of_written hadded⟩
  | some source =>
    obtain ⟨c, hc, hread⟩ := readSource_of_some hsource
    have hothers : ∀ held ∈ texts.filter fun held => held.1 != sourceKey, Savable held :=
      fun held hheld => h held (mem_of_mem_filter hheld)
    obtain ⟨added, hadded⟩ := exists_written hothers
    rw [hread]
    exact ⟨added, .cons hc hadded, textChunks_of_written hadded⟩

theorem written_scriptChunk (settings : AnnotationSettings) (hsave : isTrue settings.saveScript = true)
    (made : Except Fault (String × Bool)) :
    Written (made.toOption.map fun made => ("ComfyScript", Value.str made.1, made.2)).toList
      (scriptChunk settings made) := by
  cases made with
  | error e => exact .nil
  | ok made =>
    obtain ⟨text, zip⟩ := made
    obtain ⟨c, hc⟩ := Chunk.exists_ofText "ComfyScript" (.str text) zip (by decide) rfl
    simp only [scriptChunk, hsave, if_true, hc]
    exact .cons hc .nil

theorem scriptChunk_of_not (settings : AnnotationSettings) (hsave : isTrue settings.saveScript = false)
    (made : Except Fault (String × Bool)) : scriptChunk settings made = [] := by
  cases made with
  | error e => rfl
  | ok made => simp [scriptChunk, hsave]

theorem written_readScript (a : Annotation) (settings : AnnotationSettings) (nodesInfo : Value)
    (node : Option Value) :
    Written (scriptToSave a.texts settings nodesInfo node).toList
      (a.readScript settings nodesInfo node).chunks := by
  have hscript : ∀ ends, a.script settings nodesInfo ends =
      script ⟨[], a.texts⟩ settings nodesInfo ends := fun _ => rfl
  by_cases hsave : isTrue settings.saveScript = true
  · by_cases hhas : (Table.has "workflow" a.texts || Table.has "prompt" a.texts) = true
    · cases node with
      | none =>
        simpa [scriptToSave, readScript, hsave, hhas, hscript] using
          written_scriptChunk settings hsave _
      | some id =>
        simpa [scriptToSave, readScript, hsave, hhas, hscript] using
          written_scriptChunk settings hsave _
    · have hnone : scriptToSave a.texts settings nodesInfo node = none := by
        simp [scriptToSave, hhas]
      have hchunks : (a.readScript settings nodesInfo node).chunks = [] := by
        simp [readScript, hsave, hhas]
      rw [hnone, hchunks]
      exact .nil
  · rw [Bool.not_eq_true] at hsave
    have hnone : scriptToSave a.texts settings nodesInfo node = none := by
      simp [scriptToSave, hsave]
    have hchunks : (a.readScript settings nodesInfo node).chunks = [] := by
      unfold readScript
      split
      · rfl
      · split
        · rfl
        · exact scriptChunk_of_not settings hsave _
    rw [hnone, hchunks]
    exact .nil

theorem read_of_nil (h : a.texts = []) (settings : AnnotationSettings) (nodesInfo : Value)
    (node : Option Value) : a.read settings nodesInfo node = (⟨"", [], []⟩, .ok a.chunks, a) := by
  simp [read, h]

theorem read_of_savable (h : ∀ held ∈ a.texts, Savable held) (settings : AnnotationSettings)
    (nodesInfo : Value) (node : Option Value) :
    ∃ reading saved,
      a.read settings nodesInfo node =
        (reading, .ok (saved ++ a.chunks), ⟨saved ++ a.chunks, []⟩) ∧
      Written ((scriptToSave a.texts settings nodesInfo node).toList ++ toSave a.texts) saved := by
  by_cases htexts : a.texts = []
  · obtain ⟨chunks, texts⟩ := a
    obtain rfl : texts = [] := htexts
    refine ⟨_, [], read_of_nil rfl settings nodesInfo node, ?_⟩
    simp [scriptToSave, Table.has, toSave, decodedSource?, Written]
  · obtain ⟨added, hsource, hadded⟩ := written_readSource h
    have hscript := written_readScript a settings nodesInfo node
    refine ⟨a.readScript settings nodesInfo node,
      (a.readScript settings nodesInfo node).chunks ++ (readSource a.texts).1 ++ added, ?_, ?_⟩
    · simp only [read, List.isEmpty_iff, htexts, if_false, hadded]
    · rw [append_assoc]
      exact rel_append hscript hsource

namespace Ledger

structure Tells (l : Ledger) (a : Annotation) : Prop where
  chunks : a.chunks = l.shown ++ l.added
  texts : a.texts = l.pending
  savable : ∀ held ∈ l.texts, Savable held

variable {l : Ledger}

theorem Tells.savable_texts (h : l.Tells a) : ∀ held ∈ a.texts, Savable held := by
  intro held hheld
  rw [h.texts] at hheld
  exact h.savable held (Table.mem_of_mem_lastEntries hheld)

theorem Tells.enter (h : l.Tells a) {step : Step} (hstep : step.Proper) :
    (l.enter a step).Tells (a.perform step) := by
  cases step with
  | add c =>
    refine ⟨?_, h.texts, h.savable⟩
    simp [perform, Annotation.add, Ledger.enter, h.chunks]
  | addText key value zip =>
    refine ⟨h.chunks, ?_, ?_⟩
    · rw [perform, Annotation.addText, h.texts]
      exact (Table.lastEntries_append_singleton l.texts (key, value, zip)).symm
    · intro held hheld
      rcases mem_append.mp hheld with hold | hnew
      · exact h.savable held hold
      · exact mem_singleton.mp hnew ▸ hstep
  | read settings nodesInfo node =>
    obtain ⟨reading, saved, hread, -⟩ := read_of_savable h.savable_texts settings nodesInfo node
    simp only [perform, Ledger.enter, hread]
    exact ⟨by simp, rfl, by simp⟩

theorem tells_after (steps : List Step) (h : ∀ step ∈ steps, step.Proper) :
    (after steps).2.Tells (after steps).1 := by
  induction steps using List.reverseRecOn with
  | nil => exact ⟨rfl, rfl, by simp [after]⟩
  | append_singleton earlier step ih =>
    have hearlier := ih fun step hstep => h step (mem_append_left _ hstep)
    have hafter : after (earlier ++ [step]) =
        ((after earlier).1.perform step, (after earlier).2.enter (after earlier).1 step) := by
      simp [after]
    rw [hafter]
    exact hearlier.enter (h step (by simp))

end Ledger

/-- Nothing is lost and nothing comes twice. After any steps, a reading gives first the script if one
is to be saved, then the texts that are pending, with a source that can be decoded in front, and then
what was read last and what was added since. Another reading gives the same. -/
theorem read_gives_all_once (steps : List Step) (hsteps : ∀ step ∈ steps, step.Proper)
    (settings : AnnotationSettings) (nodesInfo : Value) (node : Option Value) :
    ∃ reading saved chunks,
      (after steps).1.read settings nodesInfo node = (reading, .ok chunks, ⟨chunks, []⟩) ∧
      chunks = saved ++ (after steps).2.shown ++ (after steps).2.added ∧
      Written ((scriptToSave (after steps).2.pending settings nodesInfo node).toList ++
        toSave (after steps).2.pending) saved ∧
      ∀ settings' nodesInfo' node',
        read ⟨chunks, []⟩ settings' nodesInfo' node' = (⟨"", [], []⟩, .ok chunks, ⟨chunks, []⟩) := by
  have htells := Ledger.tells_after steps hsteps
  obtain ⟨reading, saved, hread, hsaved⟩ :=
    read_of_savable htells.savable_texts settings nodesInfo node
  rw [htells.chunks, ← List.append_assoc] at hread
  rw [htells.texts] at hsaved
  exact ⟨reading, saved, _, hread, rfl, hsaved, read_of_nil rfl⟩

/-- A chunk, a note, a prompt of which no script can be made, a source, and another note in place of
the first. -/
def notedSteps : List Step :=
  [.add ⟨"tIME", .bytes [], false⟩, .addText "note" (.str "a") false,
    .addText "prompt" (.str "é") false, .addText sourceKey (.str "\"s\"") false, .addText "note" (.str "b") true]

theorem proper_notedSteps : ∀ step ∈ notedSteps, step.Proper := by decide

theorem read_gives_all_once_noted :
    (∀ step ∈ notedSteps, step.Proper) ∧
      ((after notedSteps).1.read ⟨.bool true, .bool true, .bool false⟩ .null none).2.1 =
        .ok [⟨"tEXt", .bytes (Chunk.latinBytes "ComfyScriptSource\x00s"), false⟩,
          ⟨"zTXt", .compressed "note" "b", false⟩,
          ⟨"tEXt", .bytes (Chunk.latinBytes "prompt\x00é"), false⟩, ⟨"tIME", .bytes [], false⟩] := by
  refine ⟨proper_notedSteps, ?_⟩
  obtain ⟨reading, saved, chunks, hread, hchunks, hsaved, -⟩ :=
    read_gives_all_once notedSteps proper_notedSteps ⟨.bool true, .bool true, .bool false⟩ .null none
  have hfront : saved = [⟨"tEXt", .bytes (Chunk.latinBytes "ComfyScriptSource\x00s"), false⟩,
      ⟨"zTXt", .compressed "note" "b", false⟩,
      ⟨"tEXt", .bytes (Chunk.latinBytes "prompt\x00é"), false⟩] :=
    (congrArg Prod.fst (textChunks_of_written hsaved)).symm
  rw [hread, hchunks, hfront]
  rfl

end Annotation

end Flowscript
