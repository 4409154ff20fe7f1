import Vyper.Proofs.Rebuild

/-!
# Which requests are answered

The server answers what it can read. `Server.responseIds_handle` says for one event which responses
it causes: one with the id of the request for a request to shut down and for a question it reads,
none for anything else. `Session.responseIds_run` is the same of a whole run, so every response is
the answer to one request, in the order of the requests.

What it can read is said from the client's side. `Request.read?_params` reads every question about a
valid place as a client writes it; `Request.read?_eq_none` passes over a method that asks none of
them. So a request of another method, or with other parameters, gets no response at all.
-/

namespace Vyper

/-! ### Questions as a client writes them -/

/-- A URI and two numbers that a message can hold. -/
structure Place.Valid (p : Place) : Prop where
  uri : UriReference.isValid p.uri = true
  line : p.position.line < UInt32.size
  character : p.position.character < UInt32.size

namespace Request

/-- The place a question is about. -/
def place : Request → Place
  | .declaration p | .implementation p | .references p | .hover p | .completion p _
  | .signatureHelp p => p

/-- The methods that ask a question. -/
def methods : List String :=
  ["textDocument/declaration", "textDocument/definition", "textDocument/implementation",
    "textDocument/references", "textDocument/hover", "textDocument/completion",
    "textDocument/signatureHelp"]

/-- The method of a question. A declaration is also asked for as a definition. -/
def method : Request → String
  | .declaration _ => "textDocument/declaration"
  | .implementation _ => "textDocument/implementation"
  | .references _ => "textDocument/references"
  | .hover _ => "textDocument/hover"
  | .completion .. => "textDocument/completion"
  | .signatureHelp _ => "textDocument/signatureHelp"

/-- The circumstances a client tells with a question. -/
def context : Request → Option Json
  | .references _ => some (.obj [("includeDeclaration", .bool true)])
  | .completion _ trigger =>
    some (.obj (("triggerKind", .nat (if trigger.isSome then 2 else 1)) ::
      Json.member? "triggerCharacter" (trigger.map .str)))
  | _ => none

/-- The parameters of a question. -/
def params (r : Request) : Json :=
  .obj ([("textDocument", .obj [("uri", .str r.place.uri)]),
    ("position", r.place.position.toJson)] ++ Json.member? "context" r.context)

end Request

namespace Json

theorem uint32?_nat {n : Nat} (h : n < UInt32.size) : (nat n).uint32? = some n := by
  have hbound : (0 : Int) ≤ n ∧ (n : Int) ≤ Int.pow 2 32 - 1 := by
    have hsize : Int.pow 2 32 = UInt32.size := rfl
    omega
  rw [uint32?, nat, between?, if_pos hbound]
  rfl

theorem position?_toJson {p : Position} (hline : p.line < UInt32.size)
    (hcharacter : p.character < UInt32.size) : p.toJson.position? = some p := by
  have h1 := uint32?_nat hline
  have h2 := uint32?_nat hcharacter
  simp [position?, Position.toJson, fields?, get?, h1, h2]

end Json

namespace Request

variable {r : Request}

theorem get?_params_place :
    r.params.get? "textDocument" = some (.obj [("uri", .str r.place.uri)]) ∧
      r.params.get? "position" = some r.place.position.toJson := by
  cases hcontext : r.context <;> simp [params, hcontext, Json.get?, Json.member?]

theorem get?_params_token :
    r.params.get? "workDoneToken" = none ∧ r.params.get? "partialResultToken" = none := by
  cases hcontext : r.context <;> simp [params, hcontext, Json.get?, Json.member?]

theorem get?_params_context : r.params.get? "context" = r.context := by
  cases hcontext : r.context <;> simp [params, hcontext, Json.get?, Json.member?]

theorem place?_params (h : r.place.Valid) : r.params.place? = some r.place := by
  have huri : (Json.obj [("uri", .str r.place.uri)]).documentUri? = some r.place.uri := by
    simp [Json.documentUri?, Json.fields?, Json.get?, Json.uri?, Json.string?, h.uri]
  rw [Json.place?, get?_params_token.1, get?_params_place.1, get?_params_place.2]
  simp [Json.optional, huri, Json.position?_toJson h.line h.character]

theorem partialPlace?_params (h : r.place.Valid) : r.params.partialPlace? = some r.place := by
  rw [Json.partialPlace?, get?_params_token.2, place?_params h]
  rfl

/-- A question about a valid place is read as it was asked. -/
theorem read?_params (h : r.place.Valid) : read? r.method r.params = some r := by
  have hplace := place?_params h
  have hpartial := partialPlace?_params h
  have hcontext := get?_params_context (r := r)
  cases r with
  | declaration p => simp [read?, method, hpartial, place]
  | implementation p => simp [read?, method, hpartial, place]
  | references p =>
    have hread : (Json.obj [("includeDeclaration", .bool true)]).referenceContext? = some () := rfl
    simp [read?, method, hpartial, hcontext, context, place, hread]
  | hover p => simp [read?, method, hplace, place]
  | completion p trigger =>
    have hread : ((Json.obj (("triggerKind", .nat (if trigger.isSome then 2 else 1)) ::
        Json.member? "triggerCharacter" (trigger.map .str))).completionTrigger?) =
          some trigger := by
      cases trigger <;> rfl
    simp [read?, method, hpartial, hcontext, context, place, Json.optional, hread]
  | signatureHelp p => simp [read?, method, hplace, hcontext, context, place, Json.optional]

theorem read?_definition {p : Place} (h : p.Valid) :
    read? "textDocument/definition" (declaration p).params = some (.declaration p) := by
  rw [read?, partialPlace?_params (r := .declaration p) h]
  rfl

/-- Other methods ask nothing. -/
theorem read?_eq_none {name : String} (h : name ∉ methods) (params : Json) :
    read? name params = none := by
  unfold read?
  split <;> first | rfl | exact absurd (by decide) h

end Request

/-! ### The responses to one event -/

/-- The request a message responds to. -/
def Outgoing.responseId? : Outgoing → Option RequestId
  | .response id _ => some id
  | _ => none

/-- The requests that messages respond to, in order. -/
def responseIds (sent : List Outgoing) : List RequestId := sent.filterMap Outgoing.responseId?

/-- A request that the server answers: to shut down, or a question it can read. -/
def Request.Answered (method : String) (params : Json) : Prop :=
  method = "shutdown" ∨ (read? method params).isSome

instance (method : String) (params : Json) : Decidable (Request.Answered method params) :=
  inferInstanceAs (Decidable (_ ∨ _))

/-- The id of the request that an event brings, if it is one that the server answers. -/
def Event.answered? : Event → Option RequestId
  | .receive _ (.request id method params) =>
    if Request.Answered method params then some id else none
  | _ => none

namespace Server

variable {s : Server}

theorem responseIds_log (level : LogLevel) (message : String) (fields : List (String × String)) :
    responseIds (s.log level message fields) = [] := by
  unfold log
  dsimp only
  split <;> rfl

theorem responseIds_answer (id : RequestId) (r : Request) : responseIds (s.answer id r) = [id] := by
  cases r with
  | declaration place =>
    rw [answer]
    split <;> rfl
  | _ => rfl

theorem responseIds_flatMap {α : Type} {f : α → List Outgoing} (h : ∀ a, responseIds (f a) = [])
    (items : List α) : responseIds (items.flatMap f) = [] := by
  rw [responseIds, List.filterMap_flatMap]
  exact List.flatMap_eq_nil_iff.2 fun a _ => h a

/-- What a client tells is not responded to. -/
theorem responseIds_notify (now : Nat) (n : Notification) :
    responseIds (s.notify now n).2 = [] := by
  cases n with
  | didOpen uri version text => exact responseIds_log ..
  | didChange uri version changes =>
    change responseIds (s.didChange now uri version changes).2 = []
    unfold didChange
    split
    · exact responseIds_log ..
    · exact responseIds_flatMap (fun _ => responseIds_log ..) _
  | didSave uri text => rfl
  | didClose uri =>
    change responseIds (s.log _ _ _ ++ [.diagnostics uri none []]) = []
    rw [responseIds, List.filterMap_append, ← responseIds, responseIds_log]
    rfl

theorem responseIds_rebuildDue (frontend : Frontend) (workingDirectory : Option Path) (now : Nat) :
    responseIds (s.rebuildDue frontend workingDirectory now).2 = [] := by
  have hone : ∀ o, responseIds (rebuildDocument frontend workingDirectory now o).2 = [] := by
    intro o
    unfold rebuildDocument
    split <;> rfl
  rw [rebuildDue, List.flatMap_map]
  exact responseIds_flatMap hone s.documents

/-- A request that is answered causes one response, with its id, and nothing else causes any. -/
theorem responseIds_handle (s : Server) (event : Event) :
    responseIds (s.handle event).2 = event.answered?.toList := by
  cases event with
  | rebuildDue now frontend workingDirectory =>
    exact responseIds_rebuildDue frontend workingDirectory now
  | receive now message =>
    cases message with
    | response => rfl
    | notification method params =>
      rw [handle, receive]
      cases Notification.read? method params with
      | none => rfl
      | some n => exact responseIds_notify now n
    | request id method params =>
      by_cases hshutdown : method = "shutdown"
      · subst hshutdown
        rw [Event.answered?, if_pos (.inl rfl)]
        rfl
      · have hreceive : (s.receive now (.request id method params)).2 =
            ((Request.read? method params).map (s.answer id)).getD [] := by
          unfold receive
          split
          · next heq => cases heq; exact absurd rfl hshutdown
          · next heq => cases heq; rfl
          · next heq => cases heq
          · next heq => cases heq
        rw [handle, hreceive]
        cases hread : Request.read? method params with
        | none => simp [Event.answered?, Request.Answered, hshutdown, hread, responseIds]
        | some r =>
          rw [Event.answered?, if_pos (.inr (by rw [hread]; rfl))]
          exact responseIds_answer id r

end Server

/-! ### Every run -/

namespace Session

theorem responseIds_step (t : Session) (event : Event) :
    responseIds (t.step event).sent = responseIds t.sent ++ event.answered?.toList := by
  rw [← t.server.responseIds_handle event]
  exact List.filterMap_append

theorem responseIds_run (t : Session) (events : List Event) :
    responseIds (t.run events).sent = responseIds t.sent ++ events.filterMap Event.answered? := by
  induction events generalizing t with
  | nil => exact (List.append_nil _).symm
  | cons event events ih =>
    change responseIds ((t.step event).run events).sent = _
    rw [ih, responseIds_step, List.append_assoc, List.filterMap_cons]
    cases event.answered? <;> rfl

/-- In every session, also if it were to go on behind a shutdown, the responses go to the requests
that are answered, one to each and in their order; so a further request gets one response with its
id if it is answered, and none otherwise. Every question about a valid place is answered; a request
of any other method but shutdown is not. -/
theorem responses_to_answered (options : Option Json) (debounceMs : Option Nat)
    (logFilter : LogFilter) (events : List Event) :
    let t := (start options debounceMs logFilter).run events
    responseIds t.sent = events.filterMap Event.answered? ∧
      (∀ now id method params,
        responseIds (t.server.handle (.receive now (.request id method params))).2 =
          if Request.Answered method params then [id] else []) ∧
      (∀ r : Request, r.place.Valid → Request.Answered r.method r.params) ∧
      (∀ p : Place, p.Valid →
        Request.Answered "textDocument/definition" (Request.declaration p).params) ∧
      ∀ method params, method ≠ "shutdown" → method ∉ Request.methods →
        ¬ Request.Answered method params := by
  intro t
  refine ⟨?_, fun now id method params => ?_, fun r hr => ?_, fun p hp => ?_, ?_⟩
  · rw [responseIds_run]
    exact congrArg (· ++ _) (Server.responseIds_log ..)
  · rw [Server.responseIds_handle, Event.answered?]
    split <;> rfl
  · exact .inr (by rw [Request.read?_params hr]; rfl)
  · exact .inr (by rw [Request.read?_definition hp]; rfl)
  · rintro method params hshutdown hmethod (h | h)
    · exact hshutdown h
    · rw [Request.read?_eq_none hmethod] at h
      cases h

/-- A question about a document that is not open is answered once. -/
theorem responses_to_answered_hover :
    let place : Place := ⟨"file:///a.vy", ⟨4, 2⟩⟩
    let t := (start none none (.upTo .info)).run [.rebuildDue 0 (.builtIn .empty) none]
    place.Valid ∧ responseIds (t.server.handle (.receive 1
      (.request (.number 7) (Request.hover place).method (Request.hover place).params))).2 =
        [.number 7] := by
  intro place t
  have hplace : place.Valid := ⟨by decide +kernel, by decide, by decide⟩
  obtain ⟨-, hresponses, hanswered, -⟩ := responses_to_answered none none (.upTo .info)
    [.rebuildDue 0 (.builtIn .empty) none]
  refine ⟨hplace, ?_⟩
  rw [hresponses, if_pos (hanswered (.hover place) hplace)]

/-- A request of an unknown method and one with parameters that cannot be read get no response. -/
theorem no_response_to_unread :
    let server := (start none none (.upTo .info)).server
    responseIds (server.handle
        (.receive 0 (.request (.number 1) "workspace/symbol" (.obj [("query", .str "x")])))).2 =
          [] ∧
      responseIds (server.handle
        (.receive 0 (.request (.number 2) "textDocument/hover" (.obj [])))).2 = [] :=
  ⟨rfl, rfl⟩

end Session

end Vyper
