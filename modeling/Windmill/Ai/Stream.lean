import Mathlib.Tactic

/-! # Streamed answers of a model

A provider sends an answer in pieces: text, and the name, id and arguments of tool calls, told apart
by an index. The parsers for the OpenAI chat format and for the Anthropic format do what
`Answer.add` does with the pieces. The tool calls are then taken out of a hash map, in whatever
order it iterates. -/

namespace Windmill.Ai.Stream

open List Option Function

/-- A tool call as it is collected. -/
structure ToolCall where
  id : String
  name : String
  arguments : String
  deriving DecidableEq

abbrev Calls := ℤ → Option ToolCall

inductive StreamingEvent where
  | tokenDelta (content : String)
  | toolCall (callId functionName : String)
  | toolCallArguments (callId functionName arguments : String)

structure Parser where
  content : String := ""
  toolCalls : Calls := fun _ => none
  events : List StreamingEvent := []

variable (p : Parser)

def Parser.text (content : String) : Parser :=
  { p with content := p.content ++ content, events := p.events ++ [.tokenDelta content] }

def Parser.start (idx : ℤ) (call : ToolCall) : Parser :=
  { p with
    toolCalls := Function.update p.toolCalls idx (some call)
    events := p.events ++ [.toolCall call.id call.name] }

def appendTo (arguments : String) (call : ToolCall) : ToolCall :=
  { call with arguments := call.arguments ++ arguments }

def Parser.append (idx : ℤ) (arguments : String) : Parser :=
  { p with
    toolCalls := Function.update p.toolCalls idx ((p.toolCalls idx).map (appendTo arguments)) }

/-! ### The OpenAI chat format -/

structure DeltaFunction where
  name : Option String
  arguments : Option String

/-- `rdString` is the random id that a call without one is given. -/
structure DeltaToolCall where
  index : Option ℤ
  id : Option String
  function : Option DeltaFunction
  rdString : String

structure Delta where
  content : Option String
  toolCalls : Option (List DeltaToolCall)

structure OpenAIEvent where
  choices : Option (List (Option Delta))

def openAIToolCall : DeltaToolCall × ℕ → Parser
  | (toolCall, pos) => match toolCall.function with
    | none => p
    | some function =>
      let idx := toolCall.index.getD pos
      if (p.toolCalls idx).isSome then
        match function.arguments with
        | some arguments => p.append idx arguments
        | none => p
      else p.start idx ⟨toolCall.id.getD toolCall.rdString, function.name.getD "",
        function.arguments.getD ""⟩

variable (data : Option OpenAIEvent)

/-- The delta of the first choice. `[DONE]` and data that is no event are `none`. -/
def delta : Option Delta := (data.bind fun event => event.choices.bind List.head?).join

def openAIParseEventData : Parser :=
  match delta data with
  | none => p
  | some delta =>
    let content := delta.content.getD ""
    (delta.toolCalls.getD []).zipIdx.foldl openAIToolCall
      (if content ≠ "" then p.text content else p)

/-! ### The Anthropic format -/

inductive ContentBlockStart where
  | text (text : String)
  | toolUse (id name : String)
  | serverToolUse (name : String)
  | unknown

inductive BlockDelta where
  | textDelta (text : String)
  | inputJsonDelta (partialJson : String)
  | citationsDelta
  | unknown

inductive AnthropicEvent where
  | contentBlockStart (index : ℕ) (contentBlock : ContentBlockStart)
  | contentBlockDelta (index : ℕ) (delta : BlockDelta)
  | contentBlockStop (index : ℕ)
  | other

inductive ContentBlockState where
  | text | toolUse | unknown
  deriving DecidableEq

abbrev Blocks := ℕ → Option ContentBlockState

def Blocks.after (blocks : Blocks) : AnthropicEvent → Blocks
  | .contentBlockStart index (.text _) => Function.update blocks index (some .text)
  | .contentBlockStart index (.toolUse _ _) => Function.update blocks index (some .toolUse)
  | .contentBlockStart index _ => Function.update blocks index (some .unknown)
  | _ => blocks

def anthropicParseEventData (st : Parser × Blocks) (data : Option AnthropicEvent) :
    Parser × Blocks :=
  match data with
  | none => st
  | some event =>
    let p := st.1
    (match event with
      | .contentBlockStart _ (.text text) => if text ≠ "" then p.text text else p
      | .contentBlockStart index (.toolUse id name) => p.start index ⟨id, name, ""⟩
      | .contentBlockDelta index (.textDelta text) =>
        if st.2 index = some .text then p.text text else p
      | .contentBlockDelta index (.inputJsonDelta partialJson) => p.append index partialJson
      | .contentBlockStop index => match p.toolCalls index with
        | some call =>
          { p with events := p.events ++ [.toolCallArguments call.id call.name call.arguments] }
        | none => p
      | _ => p,
     st.2.after event)

/-! ### Responses -/

/-- What a provider sends, as the data of its events. -/
inductive Feed where
  | openAI (events : List (Option OpenAIEvent))
  | anthropic (events : List (Option AnthropicEvent))

/-- The parser after all events of a feed. -/
def parseEvents : Feed → Parser
  | .openAI events => events.foldl openAIParseEventData {}
  | .anthropic events => (events.foldl anthropicParseEventData ({}, fun _ => none)).1

def Iterates (calls : Calls) (values : List (ℤ × ToolCall)) : Prop :=
  (values.map Prod.fst).Nodup ∧ ∀ c, c ∈ values ↔ calls c.1 = some c.2

structure ParsedResponse where
  content : Option String
  toolCalls : List ToolCall
  events : List StreamingEvent

/-- The response, where the map of the calls iterates over `values`. The arguments of a call are
sent at the end of its block or, for OpenAI, at the end of the answer. -/
def parseStreamingResponse (feed : Feed) (values : List (ℤ × ToolCall)) : ParsedResponse where
  content := if (parseEvents feed).content = "" then none else some (parseEvents feed).content
  toolCalls := values.map Prod.snd
  events := match feed with
    | .openAI _ => (parseEvents feed).events ++ values.map fun c =>
        .toolCallArguments c.2.id c.2.name c.2.arguments
    | .anthropic _ => (parseEvents feed).events

/-! ### Answers that are cut into pieces -/

inductive Piece where
  | text (content : String)
  | call (idx : ℤ) (call : ToolCall)

structure Answer where
  content : String := ""
  calls : Calls := fun _ => none
  announced : List (String × String) := []

def gather (call : Option ToolCall) (piece : ToolCall) : Option ToolCall :=
  some (call.elim piece (appendTo piece.arguments))

def Answer.add (a : Answer) : Piece → Answer
  | .text content => { a with content := a.content ++ content }
  | .call idx piece =>
    { a with
      calls := Function.update a.calls idx (gather (a.calls idx) piece)
      announced := if (a.calls idx).isSome then a.announced else a.announced ++
        [(piece.id, piece.name)] }

/-- An answer: its text and its tool calls, by increasing index. -/
structure Message where
  text : String
  calls : List (ℤ × ToolCall)
  increasing : (calls.map Prod.fst).Pairwise (· < ·)

def textOf : List Piece → String
  | [] => ""
  | .text content :: ps => content ++ textOf ps
  | .call _ _ :: ps => textOf ps

def piecesAt (idx : ℤ) : List Piece → List ToolCall
  | [] => []
  | .text _ :: ps => piecesAt idx ps
  | .call i piece :: ps => if i = idx then piece :: piecesAt idx ps else piecesAt idx ps

/-- The pieces of a message: those of a call begin with its id and name and have its arguments. -/
structure Cut (ps : List Piece) (m : Message) : Prop where
  text : textOf ps = m.text
  calls : ∀ idx call, (idx, call) ∈ m.calls → ∃ piece rest, piecesAt idx ps = piece :: rest ∧
    piece.id = call.id ∧
    piece.name = call.name ∧ call.arguments = piece.arguments ++
    String.join (rest.map ToolCall.arguments)
  others : ∀ idx, idx ∉ m.calls.map Prod.fst → piecesAt idx ps = []

def openAICallPieces : DeltaToolCall × ℕ → List Piece
  | (toolCall, pos) => match toolCall.function with
    | none => []
    | some f => [.call (toolCall.index.getD pos)
        ⟨toolCall.id.getD toolCall.rdString, f.name.getD "", f.arguments.getD ""⟩]

def openAIPieces : List Piece :=
  match delta data with
  | none => []
  | some delta => .text (delta.content.getD "") :: (delta.toolCalls.getD []).zipIdx.flatMap
      openAICallPieces

def startPieces (index : ℕ) : ContentBlockStart → List Piece
  | .text text => [.text text]
  | .toolUse id name => [.call index ⟨id, name, ""⟩]
  | _ => []

def deltaPieces (index : ℕ) : BlockDelta → ContentBlockState → List Piece
  | .textDelta text, .text => [.text text]
  | .inputJsonDelta partialJson, .toolUse => [.call index ⟨"", "", partialJson⟩]
  | _, _ => []

def anthropicPiece (blocks : Blocks) : AnthropicEvent → Option (List Piece)
  | .contentBlockStart index block =>
    if (blocks index).isSome then none else some (startPieces index block)
  | .contentBlockDelta index delta => (blocks index).map (deltaPieces index delta)
  | _ => some []

def anthropicPieces (blocks : Blocks) : List (Option AnthropicEvent) → Option (List Piece)
  | [] => some []
  | none :: events => anthropicPieces blocks events
  | some event :: events => do
    let ps ← anthropicPiece blocks event
    let rest ← anthropicPieces (blocks.after event) events
    some (ps ++ rest)

/-- The events carry the pieces of the message. -/
def Cuts : Feed → Message → Prop
  | .openAI events, m => Cut (events.flatMap openAIPieces) m
  | .anthropic events, m => ∃ ps, anthropicPieces (fun _ => none) events = some ps ∧ Cut ps m

/-! ### Collecting -/

lemma content_foldl : ∀ ps a, (ps.foldl Answer.add a).content = a.content ++ textOf ps
  | [], a => by rw [textOf, String.append_empty]; rfl
  | .text content :: ps, a => by
    rw [foldl_cons, content_foldl ps, textOf, ← String.append_assoc]; rfl
  | .call _ _ :: ps, a => content_foldl ps _

/-- **The call at an index is gathered from its pieces alone.** -/
theorem calls_foldl (idx : ℤ) : ∀ ps a,
    (ps.foldl Answer.add a).calls idx = (piecesAt idx ps).foldl gather (a.calls idx)
  | [], a => rfl
  | .text _ :: ps, a => calls_foldl idx ps _
  | .call i piece :: ps, a => by
    rw [foldl_cons, calls_foldl idx ps, piecesAt]
    by_cases heq : i = idx
    · simp [heq, Answer.add]
    · simp [heq, Answer.add, Ne.symm heq]

lemma gather_foldl : ∀ (rest : List ToolCall) (c : ToolCall),
    rest.foldl gather (some c) = some (appendTo (String.join (rest.map ToolCall.arguments)) c)
  | [], c => by simp [appendTo]
  | p :: rest, c => by exact (gather_foldl rest _).trans (by simp [appendTo, String.append_assoc])

/-- The calls were announced in some order, each once. -/
def Answer.Announces (a : Answer) : Prop :=
  ∃ order : List ℤ, order.Nodup ∧ (∀ i, i ∈ order ↔ (a.calls i).isSome) ∧
    a.announced = order.filterMap fun i => (a.calls i).map fun c => (c.id, c.name)

lemma Answer.Announces.add {a : Answer} (h : a.Announces) (p : Piece) : (a.add p).Announces := by
  obtain ⟨order, hnd, hmem, hann⟩ := h
  cases p with
  | text content => exact ⟨order, hnd, hmem, hann⟩
  | call idx piece =>
    cases hidx : a.calls idx with
    | some c =>
      refine ⟨order, hnd, fun i => ?_, ?_⟩
      · by_cases hi : i = idx <;> simp [Answer.add, hi, hmem, hidx, gather]
      · simp only [Answer.add, hidx, isSome_some, if_true, hann]
        refine filterMap_congr fun i _ => ?_
        by_cases hi : i = idx <;> simp [hi, hidx, gather, appendTo]
    | none =>
      have hnew : idx ∉ order := by simp [hmem, hidx]
      refine ⟨order ++ [idx], concat_eq_append ▸ hnd.concat hnew, fun i => ?_, ?_⟩
      · by_cases hi : i = idx <;> simp [Answer.add, hi, hmem, gather]
      have hsame : order.filterMap (fun i => ((a.add (.call idx piece)).calls i).map fun c =>
        (c.id, c.name))
          = a.announced := by
        rw [hann]
        refine filterMap_congr fun i hi => ?_
        have hne : i ≠ idx := fun heq => hnew (heq ▸ hi)
        simp [Answer.add, hne]
      rw [filterMap_append, hsame]
      simp [Answer.add, hidx, gather]

lemma Answer.Announces.foldl {a : Answer} (h : a.Announces) (ps : List Piece) :
    (ps.foldl Answer.add a).Announces := by
  induction ps generalizing a with
  | nil => exact h
  | cons p ps ih => exact ih (h.add p)

/-- **However a message was cut, it is collected.** -/
theorem Cut.collected {ps m} (h : Cut ps m) :
    let a := ps.foldl Answer.add {}
    a.content = m.text ∧ Iterates a.calls m.calls ∧
      a.announced.Perm (m.calls.map fun c => (c.2.id, c.2.name)) := by
  intro a
  have hnd : (m.calls.map Prod.fst).Nodup := m.increasing.imp fun hlt => ne_of_lt hlt
  have hin : ∀ c ∈ m.calls, a.calls c.1 = some c.2 := fun ⟨idx, call⟩ hc => by
    obtain ⟨piece, rest, hat, hid, hname, hargs⟩ := h.calls idx call hc
    refine (calls_foldl idx ps {}).trans ?_
    rw [hat, foldl_cons]
    refine (gather_foldl rest piece).trans ?_
    rw [appendTo, hid, hname, ← hargs]
  have hkeys : ∀ idx, idx ∈ m.calls.map Prod.fst ↔ (a.calls idx).isSome := fun idx => by
    constructor
    · intro hmem
      obtain ⟨c, hc, rfl⟩ := mem_map.mp hmem
      rw [hin c hc]
      rfl
    · contrapose
      intro hout
      rw [show a.calls idx = none from (calls_foldl idx ps {}).trans
        (by rw [h.others idx hout]; rfl)]
      exact nofun
  obtain ⟨order, hord, hmem, hann⟩ : a.Announces :=
    Answer.Announces.foldl ⟨[], nodup_nil, by simp, rfl⟩ ps
  refine ⟨(content_foldl ps {}).trans (by simp [h.text]), ⟨hnd, fun c => ⟨hin c, fun hc => ?_⟩⟩, ?_⟩
  · obtain ⟨c', hc', heq⟩ := mem_map.mp ((hkeys c.1).mpr (by rw [hc]; rfl))
    have hsame : c'.2 = c.2 := some_inj.mp ((hin c' hc').symm.trans (heq ▸ hc))
    rwa [← Prod.ext heq hsame]
  have hperm : order.Perm (m.calls.map Prod.fst) :=
    (perm_ext_iff_of_nodup hord hnd).mpr fun idx => (hmem idx).trans (hkeys idx).symm
  have hheads : (m.calls.map Prod.fst).filterMap (fun i => (a.calls i).map fun c => (c.id, c.name))
      = m.calls.map fun c => (c.2.id, c.2.name) := by
    rw [filterMap_map, ← filterMap_eq_map]
    exact filterMap_congr fun c hc => by simp [hin c hc]
  rw [hann, ← hheads]
  exact hperm.filterMap _

/-! ### The parsers collect the pieces of their events -/

def announcement : StreamingEvent → Option (String × String)
  | .toolCall callId functionName => some (callId, functionName)
  | _ => none

def Parser.answer : Answer := ⟨p.content, p.toolCalls, p.events.filterMap announcement⟩

lemma answer_text (content : String) :
    (if content ≠ "" then p.text content else p).answer = p.answer.add (.text content) := by
  split_ifs with hemp
  · simp [Parser.text, Parser.answer, Answer.add, announcement]
  · simp [not_not.mp hemp, Answer.add]

lemma answer_start {p : Parser} {idx : ℤ} (h : p.toolCalls idx = none) (call : ToolCall) :
    (p.start idx call).answer = p.answer.add (.call idx call) := by
  simp [Parser.start, Parser.answer, Answer.add, h, gather, announcement]

lemma answer_append {p : Parser} {idx : ℤ} (h : (p.toolCalls idx).isSome) (piece : ToolCall) :
    (p.append idx piece.arguments).answer = p.answer.add (.call idx piece) := by
  obtain ⟨c, hc⟩ := isSome_iff_exists.mp h
  simp [Parser.append, Parser.answer, Answer.add, hc, gather]

lemma answer_foldl {α : Type} {step pieces}
    (hstep : ∀ p x, (step p x).answer = (pieces x).foldl Answer.add p.answer) :
    ∀ (xs : List α) (p : Parser),
    (xs.foldl step p).answer = (xs.flatMap pieces).foldl Answer.add p.answer
  | [], _ => rfl
  | x :: xs, p => by rw [foldl_cons, answer_foldl hstep xs, hstep, flatMap_cons, foldl_append]

lemma answer_openAIToolCall (x : DeltaToolCall × ℕ) :
    (openAIToolCall p x).answer = (openAICallPieces x).foldl Answer.add p.answer := by
  obtain ⟨toolCall, pos⟩ := x
  simp only [openAIToolCall, openAICallPieces]
  cases toolCall.function with
  | none => rfl
  | some f =>
    simp only [foldl_cons, foldl_nil]
    split_ifs with hsome
    · rw [← answer_append hsome]
      cases f.arguments with
      | some arguments => rfl
      | none =>
        have hid : appendTo "" = id := funext fun c => by simp [appendTo]
        simp [Parser.append, hid]
    · exact answer_start (not_isSome_iff_eq_none.mp hsome) _

lemma answer_openAI : (openAIParseEventData p data).answer =
    (openAIPieces data).foldl Answer.add p.answer := by
  unfold openAIParseEventData openAIPieces
  cases delta data with
  | none => rfl
  | some delta => rw [answer_foldl answer_openAIToolCall, foldl_cons, answer_text]

def Tracks (st : Parser × Blocks) : Prop :=
  ∀ i : ℕ, (st.1.toolCalls i).isSome ↔ st.2 i = some .toolUse

lemma Tracks.update {st} (h : Tracks st) {p} {index : ℕ} {state}
    (hidx : (p.toolCalls index).isSome ↔ state = .toolUse)
    (hothers : ∀ i : ℕ, i ≠ index → p.toolCalls i = st.1.toolCalls i) :
    Tracks (p, update st.2 index (some state)) := fun i => by
  by_cases hi : i = index
  · subst hi
    simpa using hidx
  · simpa [hi, hothers i hi] using h i

/-- **A well-formed event** adds its pieces. -/
theorem anthropic_step {st} (h : Tracks st) {event ps} (hps : anthropicPiece st.2 event = some ps) :
    (anthropicParseEventData st (some event)).1.answer = ps.foldl Answer.add st.1.answer ∧
      Tracks (anthropicParseEventData st (some event)) := by
  obtain ⟨p, blocks⟩ := st
  cases event with
  | other => cases hps; exact ⟨rfl, h⟩
  | contentBlockStop index =>
    cases hps
    simp only [anthropicParseEventData]
    cases p.toolCalls index with
    | none => exact ⟨rfl, h⟩
    | some c => exact ⟨by simp [Parser.answer, announcement], h⟩
  | contentBlockStart index block =>
    rw [anthropicPiece] at hps
    split_ifs at hps with hnew
    cases hps
    have hnone : p.toolCalls index = none := by
      rw [← not_isSome_iff_eq_none, h index]
      exact fun heq => hnew (heq ▸ rfl)
    cases block with
    | text text =>
      refine ⟨answer_text p text, ?_⟩
      simp only [anthropicParseEventData, Blocks.after]
      split_ifs <;> exact h.update (by simp [Parser.text, hnone]) fun _ _ => rfl
    | toolUse id name =>
      refine ⟨answer_start hnone _, h.update (by simp [Parser.start]) fun i hi => ?_⟩
      simp [Parser.start, hi]
    | serverToolUse name | unknown => exact ⟨rfl, h.update (by simp [hnone]) fun _ _ => rfl⟩
  | contentBlockDelta index delta =>
    obtain ⟨state, hstate, rfl⟩ := map_eq_some_iff.mp hps
    replace hstate : blocks index = some state := hstate
    have hcall : (p.toolCalls index).isSome ↔ some state = some .toolUse := hstate ▸ h index
    cases delta with
    | citationsDelta => exact ⟨rfl, h⟩
    | unknown => exact ⟨rfl, h⟩
    | textDelta text =>
      simp only [anthropicParseEventData, hstate]
      cases state with
      | text =>
        exact ⟨by simp [Parser.text, Parser.answer, Answer.add, announcement, deltaPieces], h⟩
      | toolUse => exact ⟨rfl, h⟩
      | unknown => exact ⟨rfl, h⟩
    | inputJsonDelta partialJson =>
      refine ⟨?_, fun i => Iff.trans ?_ (h i)⟩
      · by_cases htool : state = .toolUse
        · subst htool
          exact answer_append (hcall.mpr rfl) ⟨"", "", partialJson⟩
        have hnone : p.toolCalls index = none :=
          not_isSome_iff_eq_none.mp fun hsome => htool (some_inj.mp (hcall.mp hsome))
        have hemp : deltaPieces index (.inputJsonDelta partialJson) state = [] := by
          cases state <;> first | rfl | exact absurd rfl htool
        have hsame : p.append index partialJson = p := by
          rw [Parser.append, hnone, map_none, ← hnone, update_eq_self]
        rw [hemp]
        exact congrArg Parser.answer hsame
      · by_cases hi : i = index <;> simp [anthropicParseEventData, Parser.append, hi]

lemma answer_anthropic : ∀ (events : List (Option AnthropicEvent)) {st : Parser × Blocks}
    {ps : List Piece}, Tracks st → anthropicPieces st.2 events = some ps →
      (events.foldl anthropicParseEventData st).1.answer = ps.foldl Answer.add st.1.answer
  | [], st, ps, _, hps => by cases hps; rfl
  | none :: events, st, ps, h, hps => answer_anthropic events h hps
  | some event :: events, st, ps, h, hps => by
    obtain ⟨first, hfirst, hps⟩ := bind_eq_some_iff.mp hps
    obtain ⟨rest, hrest, hps⟩ := bind_eq_some_iff.mp hps
    cases hps
    obtain ⟨hans, htr⟩ := anthropic_step h hfirst
    rw [foldl_cons, answer_anthropic events htr hrest, hans, ← foldl_append]

/-- **Both parsers collect what their events carry.** -/
theorem parseEvents_of_cuts {feed m} (h : Cuts feed m) :
    (parseEvents feed).content = m.text ∧ Iterates (parseEvents feed).toolCalls m.calls ∧
      ((parseEvents feed).events.filterMap announcement).Perm
        (m.calls.map fun c => (c.2.id, c.2.name)) := by
  have hans : ∃ ps, (parseEvents feed).answer = ps.foldl Answer.add {} ∧ Cut ps m := by
    cases feed with
    | openAI events => exact ⟨_, answer_foldl answer_openAI events {}, h⟩
    | anthropic events =>
      obtain ⟨ps, hps, hcut⟩ := h
      have htr : Tracks ({}, fun _ => none) := fun i => ⟨nofun, nofun⟩
      exact ⟨ps, answer_anthropic events htr hps, hcut⟩
  obtain ⟨ps, hps, hcut⟩ := hans
  have hcoll := hcut.collected
  rwa [← hps] at hcoll

/-! ### The order of the calls -/

/-- The response is the message, with its calls by increasing index, each of them announced once. -/
structure Faithful (m : Message) (response : ParsedResponse) : Prop where
  content : response.content = if m.text = "" then none else some m.text
  toolCalls : response.toolCalls = m.calls.map Prod.snd
  announced : (response.events.filterMap announcement).Perm
    (m.calls.map fun c => (c.2.id, c.2.name))

lemma Iterates.perm {calls l l'} (h : Iterates calls l) (h' : Iterates calls l') : l.Perm l' :=
  (perm_ext_iff_of_nodup h.1.of_map h'.1.of_map).mpr fun c => (h.2 c).trans (h'.2 c).symm

/-- **The response is the message for every order in which the map may iterate, exactly if no two
calls differ**, in particular if there is at most one. -/
theorem reassembled_iff {feed : Feed} {m : Message} (h : Cuts feed m) :
    (∀ values, Iterates (parseEvents feed).toolCalls values →
      Faithful m (parseStreamingResponse feed values)) ↔
      ∀ c ∈ m.calls, ∀ c' ∈ m.calls, c.2 = c'.2 := by
  obtain ⟨hcont, hcalls, hann⟩ := parseEvents_of_cuts h
  constructor
  · intro hall
    -- each call comes first in some order
    have hfirst : ∀ c ∈ m.calls, (m.calls.map Prod.snd).head? = some c.2 := fun c hc => by
      have hperm := (perm_cons_erase hc).symm
      have hord : Iterates _ _ :=
        ⟨(hperm.map Prod.fst).nodup_iff.mpr hcalls.1, fun c => hperm.mem_iff.trans (hcalls.2 c)⟩
      rw [← (hall _ hord).toolCalls]
      rfl
    exact fun c hc c' hc' => some_inj.mp ((hfirst c hc).symm.trans (hfirst c' hc'))
  · intro hsame values hvals
    have hperm := hvals.perm hcalls
    refine ⟨by rw [← hcont]; rfl, ?_, ?_⟩
    · refine ext_getElem (by simpa [parseStreamingResponse] using hperm.length_eq)
        fun i hi hi' => ?_
      simp only [parseStreamingResponse, getElem_map]
      exact hsame _ (hperm.mem_iff.mp (getElem_mem _)) _ (getElem_mem _)
    · have hevents : (parseStreamingResponse feed values).events.filterMap announcement
          = (parseEvents feed).events.filterMap announcement := by
        cases feed <;> simp [parseStreamingResponse, announcement, comp_def]
      rwa [hevents]

def oneCall : Feed := .anthropic [some (.contentBlockStart 0 (.text "hi")),
  some (.contentBlockStart 1 (.toolUse "c1" "f")),
  some (.contentBlockDelta 1 (.inputJsonDelta "[")),
  some (.contentBlockDelta 0 (.textDelta "!")), some (.contentBlockDelta 1 (.inputJsonDelta "]"))]

theorem reassembled_iff_oneCall :
    Cuts oneCall ⟨"hi!", [(1, ⟨"c1", "f", "[]"⟩)], List.pairwise_singleton _ _⟩ ∧
      ∀ values, Iterates (parseEvents oneCall).toolCalls values →
        Faithful ⟨"hi!", [(1, ⟨"c1", "f", "[]"⟩)], List.pairwise_singleton _ _⟩
          (parseStreamingResponse oneCall values) := by
  have hcuts : Cuts oneCall ⟨"hi!", [(1, ⟨"c1", "f", "[]"⟩)], pairwise_singleton _ _⟩ := by
    refine ⟨_, rfl, by decide, fun idx call hmem => ?_, fun idx hmem => ?_⟩
    · cases mem_singleton.mp hmem
      exact ⟨⟨"c1", "f", ""⟩, [⟨"", "", "["⟩, ⟨"", "", "]"⟩], rfl, rfl, rfl, by decide⟩
    · have hne : (1 : ℤ) ≠ idx := fun heq => hmem (heq ▸ mem_singleton_self _)
      simp [startPieces, deltaPieces, piecesAt, hne]
  refine ⟨hcuts, (reassembled_iff hcuts).mpr fun c hc c' hc' => ?_⟩
  rw [mem_singleton.mp hc, mem_singleton.mp hc']

def twoCalls : Feed := .openAI
  [some ⟨some [some ⟨none, some [⟨some 0, some "a", some ⟨some "f", some ""⟩, ""⟩,
  ⟨some 1, some "b", some ⟨some "g", some ""⟩, ""⟩]⟩]⟩]

theorem second_call_first : Iterates (parseEvents twoCalls).toolCalls
    [(1, ⟨"b", "g", ""⟩), (0, ⟨"a", "f", ""⟩)] ∧
      (parseStreamingResponse twoCalls [(1, ⟨"b", "g", ""⟩), (0, ⟨"a", "f", ""⟩)]).toolCalls
        = [⟨"b", "g", ""⟩, ⟨"a", "f", ""⟩] := by
  have hcalls : (parseEvents twoCalls).toolCalls
      = update (update (fun _ => none) 0 (some ⟨"a", "f", ""⟩)) 1 (some ⟨"b", "g", ""⟩) := rfl
  refine ⟨⟨by decide, fun ⟨i, call⟩ => ?_⟩, rfl⟩
  rw [hcalls]
  by_cases h1 : i = 1
  · simp [h1, eq_comm]
  · by_cases h0 : i = 0 <;> simp [h0, h1, eq_comm]

end Windmill.Ai.Stream
