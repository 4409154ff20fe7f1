import Vyper.Server.State

/-!
# No rebuild is lost

A session is a run of the server: messages and rebuilds in any order and at any times, with all that
was sent and every build that was made. What one event does is said once, for each URI on its own
(`Effect`): nothing, or the document waits for a rebuild, or it is closed, or it is rebuilt.

`Session.settled_run` is the invariant of every run. An open document waits for a rebuild of its
version, or its last build was one of the text it has now and the last diagnostics published for it
are those of that build; for a URI that is not open the last ones are empty.
-/

namespace Vyper

/-- One build of a document: what was known before it, and what it was made with. -/
structure Build where
  document : Document
  before : Analysis
  frontend : Frontend
  workingDirectory : Option Path

/-- The analysis and the diagnostics of a build. -/
def Build.result (b : Build) : Analysis × List Diagnostic :=
  b.before.build b.frontend b.document b.workingDirectory

/-- What happens to a server. -/
inductive Event where
  | receive (now : Nat) (message : Incoming)
  | rebuildDue (now : Nat) (frontend : Frontend) (workingDirectory : Option Path)

/-- The version and the diagnostics that a message publishes for a URI. -/
def Outgoing.published? (uri : String) : Outgoing → Option (Option Int × List Diagnostic)
  | .diagnostics u version list => if u = uri then some (version, list) else none
  | _ => none

/-- What was published for a URI, in order. -/
def published (uri : String) (sent : List Outgoing) : List (Option Int × List Diagnostic) :=
  sent.filterMap (Outgoing.published? uri)

/-- The builds of the document with a URI, in order. -/
def buildsOf (uri : String) (builds : List Build) : List Build :=
  builds.filter (·.document.uri == uri)

namespace Server

def handle (s : Server) : Event → Server × List Outgoing
  | .receive now message => s.receive now message
  | .rebuildDue now frontend workingDirectory => s.rebuildDue frontend workingDirectory now

/-- The builds of the documents whose quiet time has passed. -/
def dueBuilds (s : Server) (frontend : Frontend) (workingDirectory : Option Path) (now : Nat) :
    List Build :=
  s.documents.flatMap fun o =>
    if (o.rebuild.poll now).1.isSome then [⟨o.document, o.analysis, frontend, workingDirectory⟩]
    else []

/-- The builds an event makes. -/
def builds (s : Server) : Event → List Build
  | .receive .. => []
  | .rebuildDue now frontend workingDirectory => s.dueBuilds frontend workingDirectory now

/-- No two open documents have one URI. -/
def Distinct (s : Server) : Prop := (s.documents.map (·.document.uri)).Nodup

end Server

/-- A server, all it has sent, and all the builds it has made. -/
structure Session where
  server : Server
  sent : List Outgoing
  builds : List Build

namespace Session

/-- A session that has just begun. -/
def start (options : Option Json) (debounceMs : Option Nat) (logFilter : LogFilter) : Session :=
  let (server, sent) := Server.start options debounceMs logFilter
  ⟨server, sent, []⟩

def step (t : Session) (event : Event) : Session :=
  ⟨(t.server.handle event).1, t.sent ++ (t.server.handle event).2,
    t.builds ++ t.server.builds event⟩

/-- One event after the other. A run goes on behind a shutdown, where the loop of the server stops;
the sessions of the server are the runs with a shutdown at their end or nowhere. -/
def run (t : Session) (events : List Event) : Session := events.foldl step t

end Session

/-! ### One event, seen from one URI -/

/-- What an event does to the document with a URI, what it publishes for it and how it builds it. -/
inductive Effect : Option OpenDocument → Option OpenDocument →
    List (Option Int × List Diagnostic) → List Build → Prop where
  | idle (o : Option OpenDocument) : Effect o o [] []
  | scheduled {before : Option OpenDocument} {o : OpenDocument} (deadline : Nat) :
    o.rebuild.pending = some ⟨deadline, o.version⟩ → Effect before (some o) [] []
  | closed {before : Option OpenDocument} : Effect before none [(none, [])] []
  | rebuilt {o o' : OpenDocument} {p : Pending Int} {b : Build} :
    o.rebuild.pending = some p → o'.rebuild.pending = none → b.document = o.document →
    o'.document = o.document → o'.version = o.version → o'.analysis = b.result.1 →
    Effect (some o) (some o') [(some p.args, b.result.2)] [b]

namespace Server

variable {s : Server} {uri u : String}

theorem published_log (level : LogLevel) (message : String) (fields : List (String × String)) :
    published u (s.log level message fields) = [] := by
  unfold log
  dsimp only
  split <;> rfl

theorem published_answer (id : RequestId) (r : Request) : published u (s.answer id r) = [] := by
  cases r with
  | declaration place =>
    rw [answer]
    split <;> rfl
  | _ => rfl

/-- Documents changed one by one, each keeping its URI, are found where they were. -/
theorem find?_map_document {f : OpenDocument → OpenDocument}
    (hf : ∀ o, (f o).document.uri = o.document.uri) (docs : List OpenDocument) :
    (docs.map f).find? (·.document.uri == u) = (docs.find? (·.document.uri == u)).map f := by
  have hcomp : (fun o : OpenDocument => o.document.uri == u) ∘ f =
      fun o => o.document.uri == u := by
    funext o
    simp [hf o]
  rw [List.find?_map, hcomp]

theorem uri_of_document? {o : OpenDocument} (h : s.document? u = some o) : o.document.uri = u := by
  simpa using List.find?_some h

theorem document?_update {f : OpenDocument → OpenDocument}
    (hf : ∀ o, o.document.uri = uri → (f o).document.uri = uri) :
    (s.update uri f).document? u =
      if u = uri then (s.document? u).map f else s.document? u := by
  have hkeep : ∀ o : OpenDocument,
      (if o.document.uri == uri then f o else o).document.uri = o.document.uri := by
    intro o
    split
    · next h => rw [hf o (by simpa using h), beq_iff_eq.1 h]
    · rfl
  rw [document?, update, find?_map_document hkeep, ← document?]
  cases h : s.document? u with
  | none => simp
  | some o =>
    have ho := uri_of_document? h
    by_cases hu : u = uri <;> simp [ho, hu]

theorem document?_close : (s.close uri).document? u = if u = uri then none else s.document? u := by
  unfold close document?
  rw [List.find?_filter]
  split
  · next h =>
    subst h
    rw [List.find?_eq_none]
    intro o _
    simp
  · next h =>
    congr 1
    funext o
    by_cases ho : o.document.uri = u
    · simp [ho, h]
    · simp [ho]

theorem effect_didOpen (now : Nat) (uri : String) (version : Int) (text : String) (u : String) :
    Effect (s.document? u) ((s.didOpen now uri version text).1.document? u)
      (published u (s.didOpen now uri version text).2) [] := by
  let quiet : Debouncer Int := { wait := s.config.debounceMs }
  let opened : OpenDocument :=
    { document := ⟨uri, text.toList⟩, version, rebuild := quiet.call version now }
  have hclose : (s.close uri).documents.find? (·.document.uri == u) =
      if u = uri then none else s.document? u := document?_close
  have hdoc : (s.didOpen now uri version text).1.document? u =
      if u = uri then some opened else s.document? u := by
    change ((s.close uri).documents ++ [opened]).find? (·.document.uri == u) = _
    rw [List.find?_append, hclose]
    by_cases hu : u = uri
    · simp [hu, opened]
    · have hne : ¬ uri = u := fun h => hu h.symm
      simp [hu, hne, opened]
  have hpub : published u (s.didOpen now uri version text).2 = [] := published_log ..
  rw [hdoc, hpub]
  split
  · exact .scheduled (now + s.config.debounceMs) rfl
  · exact .idle _

theorem uri_applyChange {d d' : Document} {range : Option Range} {replacement : List Char}
    (h : d.applyChange range replacement = .ok d') : d'.uri = d.uri := by
  cases range with
  | none =>
    cases h
    rfl
  | some r =>
    unfold Document.applyChange at h
    dsimp only at h
    cases hfirst : d.offset r.start with
    | error e => rw [hfirst] at h; cases h
    | ok first =>
      cases hlast : d.offset r.stop with
      | error e => rw [hfirst, hlast] at h; cases h
      | ok last =>
        rw [hfirst, hlast] at h
        cases h
        rfl

theorem uri_applyChanges (d : Document) (changes : List ContentChange) :
    (applyChanges d changes).1.uri = d.uri := by
  induction changes generalizing d with
  | nil => rfl
  | cons change changes ih =>
    rw [applyChanges]
    split
    · next edited h => rw [ih, uri_applyChange h]
    · exact ih d

theorem published_flatMap_log (level : LogLevel) (message : String)
    (fields : InvalidPosition → List (String × String)) (errors : List InvalidPosition) :
    published u (errors.flatMap fun e => s.log level message (fields e)) = [] := by
  rw [published, List.filterMap_flatMap]
  exact List.flatMap_eq_nil_iff.2 fun e _ => published_log level message (fields e)

theorem effect_didChange (now : Nat) (uri : String) (version : Int) (changes : List ContentChange)
    (u : String) :
    Effect (s.document? u) ((s.didChange now uri version changes).1.document? u)
      (published u (s.didChange now uri version changes).2) [] := by
  unfold didChange
  split
  · rw [published_log]
    exact .idle _
  · next o ho =>
    have hkeep : ∀ o' : OpenDocument, o'.document.uri = uri →
        (applyChanges o.document changes).1.uri = uri :=
      fun _ _ => (uri_applyChanges _ _).trans (uri_of_document? ho)
    dsimp only
    rw [published_flatMap_log, document?_update hkeep]
    split
    · next hu =>
      rw [hu, ho]
      exact .scheduled (now + o.rebuild.wait) rfl
    · exact .idle _

theorem effect_didSave (now : Nat) (uri : String) (text : Option String) (u : String) :
    Effect (s.document? u) ((s.didSave now uri text).document? u) [] [] := by
  unfold didSave
  rw [document?_update fun o ho => by cases text <;> exact ho]
  split
  · cases s.document? u with
    | none => exact .idle none
    | some o => exact .scheduled (now + o.rebuild.wait) rfl
  · exact .idle _

theorem effect_didClose (uri u : String) :
    Effect (s.document? u) ((s.didClose uri).1.document? u)
    (published u (s.didClose uri).2) [] := by
  have hpub : published u (s.didClose uri).2 = if uri = u then [(none, [])] else [] := by
    rw [didClose, published, List.filterMap_append]
    change published u (s.log _ _ _) ++ _ = _
    rw [published_log]
    by_cases h : uri = u <;> simp [Outgoing.published?, h]
  rw [hpub]
  change Effect _ ((s.close uri).document? u) _ _
  rw [document?_close]
  by_cases h : u = uri
  · rw [if_pos h, if_pos h.symm]
    exact .closed
  · rw [if_neg h, if_neg fun heq => h heq.symm]
    exact .idle _

theorem effect_receive (now : Nat) (message : Incoming) (u : String) :
    Effect (s.document? u) ((s.receive now message).1.document? u)
      (published u (s.receive now message).2) [] := by
  unfold receive
  split
  · exact .idle _
  · next id method params _ =>
    cases Request.read? method params with
    | none => exact .idle _
    | some r =>
      change Effect _ _ (published u (s.answer id r)) _
      rw [published_answer]
      exact .idle _
  · next method params =>
    cases Notification.read? method params with
    | none => exact .idle _
    | some n =>
      cases n with
      | didOpen uri version text => exact effect_didOpen now uri version text u
      | didChange uri version changes => exact effect_didChange now uri version changes u
      | didSave uri text => exact effect_didSave now uri text u
      | didClose uri => exact effect_didClose uri u
  · exact .idle _

/-! ### Rebuilding -/

theorem poll_eq {α : Type} (d : Debouncer α) (now : Nat) :
    (∃ p, d.pending = some p ∧ d.poll now = (some p.args, { d with pending := none })) ∨
      d.poll now = (none, d) := by
  unfold Debouncer.poll
  cases hp : d.pending with
  | none => exact .inr rfl
  | some p =>
    by_cases hdue : p.deadline ≤ now
    · refine .inl ⟨p, rfl, ?_⟩
      dsimp only
      rw [if_pos hdue, Debouncer.flush, hp]
      rfl
    · refine .inr ?_
      dsimp only
      rw [if_neg hdue]

section Due

variable (frontend : Frontend) (workingDirectory : Option Path) (now : Nat)

/-- A document that is due is rebuilt and its diagnostics are published; any other stays as it is.
-/
theorem effect_rebuildDocument (o : OpenDocument) (hu : o.document.uri = u) :
    Effect (some o) (some (rebuildDocument frontend workingDirectory now o).1)
      (published u (rebuildDocument frontend workingDirectory now o).2)
      (if (o.rebuild.poll now).1.isSome then [⟨o.document, o.analysis, frontend, workingDirectory⟩]
        else []) := by
  unfold rebuildDocument
  rcases poll_eq o.rebuild now with ⟨p, hp, hpoll⟩ | hpoll
  · rw [hpoll]
    have hpub : ∀ version list, published u [.diagnostics o.document.uri version list] =
        [(version, list)] := by
      intro version list
      simp [published, Outgoing.published?, hu]
    let b : Build := ⟨o.document, o.analysis, frontend, workingDirectory⟩
    dsimp only
    rw [hpub]
    exact Effect.rebuilt (b := b) hp rfl rfl rfl rfl rfl
  · rw [hpoll]
    exact .idle _

theorem uri_rebuildDocument (o : OpenDocument) :
    (rebuildDocument frontend workingDirectory now o).1.document.uri = o.document.uri := by
  unfold rebuildDocument
  split <;> rfl

theorem published_rebuildDocument {o : OpenDocument} (h : o.document.uri ≠ u) :
    published u (rebuildDocument frontend workingDirectory now o).2 = [] := by
  unfold rebuildDocument
  split
  · simp [published, Outgoing.published?, h]
  · rfl

/-- What only the document with a URI gives rise to comes from that document. -/
theorem flatMap_of_distinct {β : Type} {docs : List OpenDocument} {g : OpenDocument → List β}
    (hd : (docs.map (·.document.uri)).Nodup) (hg : ∀ o, o.document.uri ≠ u → g o = []) :
    docs.flatMap g = ((docs.find? (·.document.uri == u)).map g).getD [] := by
  induction docs with
  | nil => rfl
  | cons o docs ih =>
    rw [List.map_cons, List.nodup_cons] at hd
    rw [List.flatMap_cons]
    by_cases ho : o.document.uri = u
    · have hrest : docs.flatMap g = [] := by
        refine List.flatMap_eq_nil_iff.2 fun o' ho' => hg o' fun heq => hd.1 ?_
        rw [ho, ← heq]
        exact List.mem_map_of_mem ho'
      rw [List.find?_cons_of_pos (by simpa using ho), hrest, List.append_nil]
      rfl
    · rw [List.find?_cons_of_neg (by simpa using ho), hg o ho, List.nil_append, ih hd.2]

theorem effect_rebuildDue (hd : s.Distinct) (u : String) :
    Effect (s.document? u) ((s.rebuildDue frontend workingDirectory now).1.document? u)
      (published u (s.rebuildDue frontend workingDirectory now).2)
      (buildsOf u (s.dueBuilds frontend workingDirectory now)) := by
  let rebuild := rebuildDocument frontend workingDirectory now
  let build (o : OpenDocument) : List Build :=
    if (o.rebuild.poll now).1.isSome then
      [⟨o.document, o.analysis, frontend, workingDirectory⟩] else []
  have hdoc : (s.rebuildDue frontend workingDirectory now).1.document? u =
      (s.document? u).map fun o => (rebuild o).1 := by
    change ((s.documents.map rebuild).map (·.1)).find? _ = _
    rw [List.map_map]
    exact find?_map_document (uri_rebuildDocument frontend workingDirectory now) s.documents
  have hpub : published u (s.rebuildDue frontend workingDirectory now).2 =
      ((s.document? u).map fun o => published u (rebuild o).2).getD [] := by
    change published u ((s.documents.map rebuild).flatMap (·.2)) = _
    rw [published, List.flatMap_map, List.filterMap_flatMap]
    exact flatMap_of_distinct hd fun o ho =>
      published_rebuildDocument frontend workingDirectory now ho
  have hbuilds : buildsOf u (s.dueBuilds frontend workingDirectory now) =
      ((s.document? u).map fun o => (build o).filter (·.document.uri == u)).getD [] := by
    rw [buildsOf, dueBuilds, List.filter_flatMap]
    refine flatMap_of_distinct hd fun o ho => ?_
    split
    · simp [ho]
    · rfl
  rw [hdoc, hpub, hbuilds]
  cases ho : s.document? u with
  | none => exact .idle none
  | some o =>
    have hu := uri_of_document? ho
    have hbuild : (build o).filter (·.document.uri == u) = build o := by
      refine List.filter_eq_self.2 fun b hb => ?_
      simp only [build] at hb
      split at hb
      · rw [List.mem_singleton.1 hb]
        simpa using hu
      · cases hb
    change Effect (some o) (some (rebuild o).1) (published u (rebuild o).2)
      ((build o).filter (·.document.uri == u))
    rw [hbuild]
    exact effect_rebuildDocument frontend workingDirectory now o hu

end Due

/-! ### Distinct URIs -/

theorem distinct_map {f : OpenDocument → OpenDocument}
    (hf : ∀ o, (f o).document.uri = o.document.uri) {docs : List OpenDocument}
    (h : (docs.map (·.document.uri)).Nodup) : ((docs.map f).map (·.document.uri)).Nodup := by
  rw [List.map_map]
  have hcomp : (fun o : OpenDocument => o.document.uri) ∘ f = fun o => o.document.uri := funext hf
  rwa [hcomp]

theorem distinct_update {f : OpenDocument → OpenDocument}
    (hf : ∀ o, o.document.uri = uri → (f o).document.uri = uri) (h : s.Distinct) :
    (s.update uri f).Distinct := by
  refine distinct_map (fun o => ?_) h
  split
  · next ho => rw [hf o (by simpa using ho), beq_iff_eq.1 ho]
  · rfl

theorem distinct_close (h : s.Distinct) : (s.close uri).Distinct :=
  h.sublist (List.filter_sublist.map _)

theorem distinct_didOpen (h : s.Distinct) (now : Nat) (uri : String) (version : Int)
    (text : String) : (s.didOpen now uri version text).1.Distinct := by
  change (((s.close uri).documents ++ [_]).map fun o : OpenDocument => o.document.uri).Nodup
  rw [List.map_append, List.nodup_append]
  refine ⟨distinct_close h, List.pairwise_singleton _ _, ?_⟩
  intro a ha b hb
  obtain ⟨o, ho, rfl⟩ := List.mem_map.1 ha
  have hne : o.document.uri ≠ uri := by simpa using (List.mem_filter.1 ho).2
  rw [List.map_singleton, List.mem_singleton] at hb
  rwa [hb]

theorem distinct_didChange (h : s.Distinct) (now : Nat) (uri : String) (version : Int)
    (changes : List ContentChange) : (s.didChange now uri version changes).1.Distinct := by
  unfold didChange
  split
  · exact h
  · next o ho =>
    exact distinct_update (fun _ _ => (uri_applyChanges _ _).trans (uri_of_document? ho)) h

theorem distinct_receive (h : s.Distinct) (now : Nat) (message : Incoming) :
    (s.receive now message).1.Distinct := by
  unfold receive
  split
  · exact h
  · exact h
  · next method params =>
    cases Notification.read? method params with
    | none => exact h
    | some n =>
      cases n with
      | didOpen uri version text => exact distinct_didOpen h now uri version text
      | didChange uri version changes => exact distinct_didChange h now uri version changes
      | didSave uri text => exact distinct_update (fun o ho => by cases text <;> exact ho) h
      | didClose uri => exact distinct_close h
  · exact h

theorem distinct_handle (h : s.Distinct) (event : Event) : (s.handle event).1.Distinct := by
  cases event with
  | receive now message => exact distinct_receive h now message
  | rebuildDue now frontend workingDirectory =>
    have hdocs : (s.handle (.rebuildDue now frontend workingDirectory)).1.documents =
        s.documents.map fun o => (rebuildDocument frontend workingDirectory now o).1 :=
      List.map_map
    rw [Distinct, hdocs]
    exact distinct_map (uri_rebuildDocument frontend workingDirectory now) h

/-- What an event does, seen from one URI. -/
theorem effect_handle (h : s.Distinct) (event : Event) (u : String) :
    Effect (s.document? u) ((s.handle event).1.document? u) (published u (s.handle event).2)
      (buildsOf u (s.builds event)) := by
  cases event with
  | receive now message => exact effect_receive now message u
  | rebuildDue now frontend workingDirectory =>
    exact effect_rebuildDue frontend workingDirectory now h u

/-- Among documents with distinct URIs each is the one found under its URI. -/
theorem document?_of_mem (h : s.Distinct) {o : OpenDocument} (ho : o ∈ s.documents) :
    s.document? o.document.uri = some o := by
  unfold Distinct at h
  unfold document?
  generalize s.documents = docs at h ho
  induction docs with
  | nil => cases ho
  | cons first docs ih =>
    rw [List.map_cons, List.nodup_cons] at h
    rcases List.mem_cons.1 ho with rfl | ho
    · exact List.find?_cons_of_pos (by simp)
    · have hne : first.document.uri ≠ o.document.uri := by
        intro heq
        rw [heq] at h
        exact h.1 (List.mem_map_of_mem ho)
      rw [List.find?_cons_of_neg (by simpa using hne)]
      exact ih h.2 ho

theorem document?_eq_none (h : ∀ o ∈ s.documents, o.document.uri ≠ u) : s.document? u = none := by
  refine List.find?_eq_none.2 fun o ho => ?_
  simpa using h o ho

end Server

/-! ### Every run -/

/-- The state of one URI: what was last published for it is up to date, or will be. -/
def Settled (o : Option OpenDocument) (published : List (Option Int × List Diagnostic))
    (builds : List Build) : Prop :=
  match o with
  | none => ∀ r ∈ published.getLast?, r.2 = []
  | some o =>
    match o.rebuild.pending with
    | some p => p.args = o.version
    | none => ∃ b, builds.getLast? = some b ∧ b.document = o.document ∧ o.analysis = b.result.1 ∧
        published.getLast? = some (some o.version, b.result.2)

theorem Effect.settled {before after : Option OpenDocument}
    {ps qs : List (Option Int × List Diagnostic)} {bs cs : List Build}
    (h : Effect before after qs cs) (hs : Settled before ps bs) :
    Settled after (ps ++ qs) (bs ++ cs) := by
  cases h with
  | idle o =>
    rw [List.append_nil, List.append_nil]
    exact hs
  | @scheduled _ o deadline hp =>
    simp only [Settled, hp]
  | closed =>
    intro r hr
    rw [List.getLast?_concat, Option.mem_some_iff] at hr
    rw [← hr]
  | @rebuilt o o' p b hp hp' hb hdoc hversion hanalysis =>
    have hargs : p.args = o.version := by
      simpa only [Settled, hp] using hs
    simp only [Settled, hp']
    refine ⟨b, List.getLast?_concat, hb.trans hdoc.symm, hanalysis, ?_⟩
    rw [List.getLast?_concat, hargs, hversion]

namespace Session

theorem settled_step {t : Session} (hd : t.server.Distinct) {u : String}
    (hs : Settled (t.server.document? u) (published u t.sent) (buildsOf u t.builds))
    (event : Event) :
    Settled ((t.step event).server.document? u) (published u (t.step event).sent)
      (buildsOf u (t.step event).builds) := by
  have heffect := (Server.effect_handle hd event u).settled hs
  rw [step, published, List.filterMap_append, buildsOf, List.filter_append]
  exact heffect

theorem settled_run {t : Session} (hd : t.server.Distinct)
    (hs : ∀ u, Settled (t.server.document? u) (published u t.sent) (buildsOf u t.builds))
    (events : List Event) :
    (t.run events).server.Distinct ∧ ∀ u, Settled ((t.run events).server.document? u)
      (published u (t.run events).sent) (buildsOf u (t.run events).builds) := by
  induction events generalizing t with
  | nil => exact ⟨hd, hs⟩
  | cons event events ih =>
    exact ih (Server.distinct_handle hd event) fun u => settled_step hd (hs u) event

theorem settled_start (options : Option Json) (debounceMs : Option Nat) (logFilter : LogFilter)
    (u : String) :
    Settled ((start options debounceMs logFilter).server.document? u)
      (published u (start options debounceMs logFilter).sent)
      (buildsOf u (start options debounceMs logFilter).builds) := by
  have hsent : published u (start options debounceMs logFilter).sent = [] := Server.published_log ..
  rw [hsent]
  exact nofun

/-- In every state of every run each open document waits for a rebuild of its version, or its last
build was one of the document as it is, its analysis is that build's, and the last diagnostics
published for it are that build's and carry its version. For a URI that is not open the last
diagnostics published are empty, if there are any. -/
theorem open_settled (options : Option Json) (debounceMs : Option Nat) (logFilter : LogFilter)
    (events : List Event) :
    let t := (start options debounceMs logFilter).run events
    (∀ o ∈ t.server.documents,
      (∃ deadline, o.rebuild.pending = some ⟨deadline, o.version⟩) ∨
      ∃ b, (buildsOf o.document.uri t.builds).getLast? = some b ∧ b.document = o.document ∧
        o.analysis = b.result.1 ∧
        (published o.document.uri t.sent).getLast? = some (some o.version, b.result.2)) ∧
    ∀ uri, (∀ o ∈ t.server.documents, o.document.uri ≠ uri) →
      ∀ r ∈ (published uri t.sent).getLast?, r.2 = [] := by
  intro t
  have hstart : (start options debounceMs logFilter).server.Distinct := List.nodup_nil
  obtain ⟨hd, hs⟩ := settled_run hstart (settled_start options debounceMs logFilter) events
  refine ⟨fun o ho => ?_, fun uri hclosed => ?_⟩
  · have ho' := hs o.document.uri
    rw [Server.document?_of_mem hd ho] at ho'
    cases hp : o.rebuild.pending with
    | some p =>
      simp only [Settled, hp] at ho'
      exact .inl ⟨p.deadline, by rw [← ho']⟩
    | none =>
      simp only [Settled, hp] at ho'
      exact .inr ho'
  · have hu := hs uri
    rw [Server.document?_eq_none hclosed] at hu
    exact hu

end Session

end Vyper
