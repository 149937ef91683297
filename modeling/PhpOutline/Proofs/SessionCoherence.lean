import Mathlib.Data.List.Basic
import PhpOutline.Proofs.WorkspaceIndexing
import PhpOutline.Session.Answer

/-!
# Coherence of a session

A session holds three things about a URI: the text of the document while it is open, the symbols in
the index, and the problems that the editor was last told of. The messages of the editor change them
separately, and so does the indexing of the workspace, from a disk that may be a different one each
time. Whatever messages have come in, the three agree.
-/

namespace PhpOutline.Session

/-! ## Messages and what is heard of them -/

inductive Message where
  | request (method : String) (params : Option Json)
  | notification (method : String) (params : Option Json)

def Message.notification? : Message → Option Notification
  | request _ _ => none
  | notification method params =>
    (notificationReader? method).bind fun read => (givenParams params).bind read

/-- The notification that a message brings. Only a running session listens. -/
def hears (session : Session) (message : Message) : Option Notification :=
  if session.phase = .running then message.notification? else none

/-- Takes a message to completion. -/
def receive (session : Session) (around : Surroundings) : Message → Worked
  | .request method params => ((session.request method params).1, [])
  | .notification method params =>
    let (session, _, sent) := session.notify around method params
    (session, sent)

/-- A session, with the notifications that it has heard and the messages that it has sent. -/
structure Exchange where
  session : Session
  heard : List Notification
  sent : List Outgoing

namespace Exchange

def start : Exchange := ⟨.start, [], []⟩

def next (exchange : Exchange) (around : Surroundings) (message : Message) : Exchange where
  session := (exchange.session.receive around message).1
  heard := exchange.heard ++ (exchange.session.hears message).toList
  sent := exchange.sent ++ (exchange.session.receive around message).2

/-- The exchange after messages, each of which finds surroundings of its own. -/
def after (messages : List (Surroundings × Message)) : Exchange :=
  messages.foldl (fun exchange (around, message) => exchange.next around message) start

end Exchange

/-- The session is the same, except that it may be in a later phase. -/
def OnlyMovesOn (session later : Session) : Prop :=
  ∃ phase, (phase = .fresh → session.phase = .fresh) ∧ later = { session with phase }

section Messages

variable (session : Session) (around : Surroundings)

theorem onlyMovesOn_self : session.OnlyMovesOn session := ⟨session.phase, id, rfl⟩

theorem onlyMovesOn_of_ne_fresh {phase : Phase} (hphase : phase ≠ .fresh) :
    session.OnlyMovesOn { session with phase } :=
  ⟨phase, fun hfresh => absurd hfresh hphase, rfl⟩

theorem request_cases (method : String) (params : Option Json) :
    (session.phase = .fresh ∧ ∃ greeting, (session.request method params).1 = session.greet greeting) ∨
      session.OnlyMovesOn (session.request method params).1 := by
  simp only [request]
  split_ifs with hexited hgreeting hshutDown hexit
  · exact Or.inr session.onlyMovesOn_self
  · unfold requestGreeting
    split_ifs with hfresh
    · cases (givenParams params).bind readGreeting with
      | some greeting => exact Or.inl ⟨hfresh, greeting, rfl⟩
      | none => exact Or.inr session.onlyMovesOn_self
    · exact Or.inr session.onlyMovesOn_self
  · unfold requestShutDown
    by_cases hrunning : session.phase = .running
    · rw [if_pos hrunning]
      exact Or.inr (session.onlyMovesOn_of_ne_fresh (by simp))
    · rw [if_neg hrunning]
      exact Or.inr session.onlyMovesOn_self
  · exact Or.inr (session.onlyMovesOn_of_ne_fresh (by simp))
  · exact Or.inr session.onlyMovesOn_self

theorem receive_notification_of_none {method : String} {params : Option Json}
    (hhears : session.hears (.notification method params) = none) :
    session.OnlyMovesOn (session.receive around (.notification method params)).1 ∧
      (session.receive around (.notification method params)).2 = [] := by
  simp only [receive, notify]
  split_ifs with hexited hexit hrunning hshutDown
  · exact ⟨session.onlyMovesOn_self, rfl⟩
  · exact ⟨session.onlyMovesOn_of_ne_fresh (by simp), rfl⟩
  · exact ⟨session.onlyMovesOn_of_ne_fresh (by simp), rfl⟩
  · rw [hears, if_pos hrunning, Message.notification?] at hhears
    rw [hhears]
    exact ⟨session.onlyMovesOn_self, rfl⟩
  · exact ⟨session.onlyMovesOn_self, rfl⟩

theorem receive_of_hears {message : Message} {notification : Notification}
    (hhears : session.hears message = some notification) :
    session.receive around message = session.notice around notification := by
  unfold hears at hhears
  split_ifs at hhears with hrunning
  cases message with
  | request method params => simp [Message.notification?] at hhears
  | notification method params =>
      have hread : notificationReader? method ≠ none := by
        intro hnone
        rw [Message.notification?, hnone] at hhears
        cases hhears
      have hexit : method ≠ "exit" := by
        rintro rfl
        exact hread rfl
      have hshutDown : method ≠ "shutdown" := by
        rintro rfl
        exact hread rfl
      have hexited : session.phase ≠ .exited := by simp [hrunning]
      rw [Message.notification?] at hhears
      rw [receive, notify, if_neg hexited, if_neg hexit, if_pos hrunning, if_neg hshutDown, hhears]

/-- **What a message does.** A session does what is due about the notification that it hears, or is
greeted, or goes on to a later phase at most. -/
theorem receive_cases (message : Message) :
    (∃ notification, session.hears message = some notification ∧
      session.receive around message = session.notice around notification) ∨
    (session.hears message = none ∧ (session.receive around message).2 = [] ∧
      ((session.phase = .fresh ∧
          ∃ greeting, (session.receive around message).1 = session.greet greeting) ∨
        session.OnlyMovesOn (session.receive around message).1)) := by
  cases hhears : session.hears message with
  | some notification => exact Or.inl ⟨notification, rfl, session.receive_of_hears around hhears⟩
  | none =>
      refine Or.inr ⟨rfl, ?_⟩
      cases message with
      | request method params => exact ⟨rfl, session.request_cases method params⟩
      | notification method params =>
          obtain ⟨hmoves, hsent⟩ := session.receive_notification_of_none around hhears
          exact ⟨hsent, Or.inr hmoves⟩

end Messages

/-! ## Documents -/

/-- The changes of the document that a notification brings. -/
@[simp]
def Notification.changesOf (uri : String) : Notification → List Change
  | changed other changes => if other = uri then changes else []
  | _ => []

/-- The notification opens or closes the document. -/
@[simp]
def Notification.opensOrCloses (uri : String) : Notification → Prop
  | opened other _ | closed other => other = uri
  | _ => False

/-- By what was heard, the document is open, and this is the text it was last opened with once all
changes since then are made in order. -/
def IsOpenWith (heard : List Notification) (uri : String) (document : Document) : Prop :=
  ∃ before text after, heard = before ++ .opened uri text :: after ∧
    (∀ notification ∈ after, ¬notification.opensOrCloses uri) ∧
    document = (after.flatMap (·.changesOf uri)).foldl Change.apply (.ofString text)

/-- One notification more: it opens the document, or it changes what was open before. -/
theorem isOpenWith_concat {heard : List Notification} {uri : String} {document : Document}
    {notification : Notification} :
    IsOpenWith (heard ++ [notification]) uri document ↔
      (∃ text, notification = .opened uri text ∧ document = .ofString text) ∨
      (¬notification.opensOrCloses uri ∧ ∃ earlier, IsOpenWith heard uri earlier ∧
        document = (notification.changesOf uri).foldl Change.apply earlier) := by
  constructor
  · rintro ⟨before, text, after, hheard, hafter, rfl⟩
    obtain rfl | ⟨rest, last, rfl⟩ := List.eq_nil_or_concat' after
    · obtain ⟨-, hlast⟩ := List.append_inj' hheard rfl
      exact Or.inl ⟨text, List.singleton_inj.mp hlast, rfl⟩
    · rw [← List.cons_append, ← List.append_assoc] at hheard
      obtain ⟨rfl, hlast⟩ := List.append_inj' hheard rfl
      obtain rfl := List.singleton_inj.mp hlast
      refine Or.inr ⟨hafter _ (by simp), _, ⟨before, text, rest, rfl, ?_, rfl⟩, by simp⟩
      intro other hother
      exact hafter other (List.mem_append_left _ hother)
  · rintro (⟨text, rfl, rfl⟩ | ⟨hstays, earlier, ⟨before, text, after, rfl, hafter, rfl⟩, rfl⟩)
    · exact ⟨heard, text, [], rfl, by simp, rfl⟩
    · refine ⟨before, text, after ++ [notification], by simp, ?_, by simp⟩
      intro other hother
      obtain hother | hother := List.mem_append.mp hother
      · exact hafter other hother
      · rwa [List.mem_singleton.mp hother]

/-- What a notification makes of the document at the URI. -/
@[simp]
def Notification.documentAfter (uri : String) (document : Option Document) :
    Notification → Option Document
  | opened other text => if other = uri then some (.ofString text) else document
  | changed other changes =>
    if other = uri then document.map (changes.foldl Change.apply ·) else document
  | closed other => if other = uri then none else document
  | initialized | saved _ => document

theorem isOpenWith_documentAfter {heard : List Notification} {uri : String} {current : Option Document}
    (hcurrent : ∀ document, current = some document ↔ IsOpenWith heard uri document)
    (notification : Notification) (document : Document) :
    notification.documentAfter uri current = some document ↔
      IsOpenWith (heard ++ [notification]) uri document := by
  rw [isOpenWith_concat]
  simp only [← hcurrent]
  cases notification with
  | initialized => simp
  | opened other text =>
      by_cases hother : other = uri
      · simp [hother, eq_comm]
      · simp [hother]
  | changed other changes =>
      by_cases hother : other = uri
      · simp [hother, @eq_comm _ document]
      · simp [hother]
  | closed other =>
      by_cases hother : other = uri
      · simp [hother]
      · simp [hother]
  | saved other => simp

/-! ## What is published -/

/-- The problems that a message tells the editor about a URI. -/
def Outgoing.warningsFor? (uri : String) : Outgoing → Option (List Warning)
  | publish other warnings => if other = uri then some warnings else none
  | _ => none

/-- The problems that the editor was last told about a URI. -/
def lastPublished (uri : String) (sent : List Outgoing) : Option (List Warning) :=
  (sent.filterMap (·.warningsFor? uri)).getLast?

theorem lastPublished_append (uri : String) (first second : List Outgoing) :
    lastPublished uri (first ++ second) = (lastPublished uri second).or (lastPublished uri first) := by
  rw [lastPublished, List.filterMap_append, List.getLast?_append]
  rfl

theorem lastPublished_eq_none {uri : String} {sent : List Outgoing}
    (hsent : ∀ message ∈ sent, message.warningsFor? uri = none) : lastPublished uri sent = none := by
  rw [lastPublished, List.filterMap_eq_nil_iff.mpr hsent]
  rfl

section Published

variable (session : Session) (uri : String)

theorem lastPublished_traceMessage (message : String) :
    lastPublished uri (session.traceMessage message) = none := by
  apply lastPublished_eq_none
  unfold traceMessage
  split_ifs <;> simp [Outgoing.warningsFor?]

theorem lastPublished_publishing (warnings : List Warning) (hwanted : session.config.diagnostics) :
    lastPublished uri (session.publishing uri warnings) = some warnings := by
  simp [publishing, hwanted, lastPublished, Outgoing.warningsFor?]

theorem lastPublished_publishing_of_ne {other : String} (hother : other ≠ uri) (warnings : List Warning) :
    lastPublished uri (session.publishing other warnings) = none := by
  apply lastPublished_eq_none
  unfold publishing
  split_ifs <;> simp [Outgoing.warningsFor?, hother]

end Published

/-! ## What a notification does at a URI -/

/-- The problems of the document at the URI, which has none if it is not open. -/
def problems (session : Session) (uri : String) : List Warning :=
  match session.documents.get? uri with
  | some document => warnings document (document.scan session.config.scan)
  | none => []

/-- If the document at the URI is open, the index has its symbols. -/
def IsIndexed (session : Session) (uri : String) : Prop :=
  ∀ document, session.documents.get? uri = some document →
    session.index.get? uri = some (document.scan session.config.scan).symbols

/-- Nothing about an open document at the URI changes, and nothing is published about it. -/
structure LeavesAlone (session : Session) (uri : String) (worked : Worked) : Prop where
  documents : worked.1.documents.get? uri = session.documents.get? uri
  index : session.documents.contains uri → worked.1.index.get? uri = session.index.get? uri
  published : lastPublished uri worked.2 = none

/-- The index is made to agree with the document at the URI, and so is what is published. -/
structure Settles (session : Session) (uri : String) (worked : Worked) : Prop where
  index : worked.1.IsIndexed uri
  published : session.config.diagnostics → lastPublished uri worked.2 = some (worked.1.problems uri)

section Register

variable (session : Session) (uri : String) (document : Document)

theorem isIndexed_register : (session.register uri document).IsIndexed uri := by
  intro other hother
  rw [register, UriMap.get?_insert_self] at hother
  obtain rfl := Option.some.inj hother
  exact UriMap.get?_insert_self _ _ _

theorem problems_register :
    (session.register uri document).problems uri = warnings document (document.scan session.config.scan) := by
  rw [problems, register, UriMap.get?_insert_self]

/-- Registering a text and publishing its problems, after whatever else is sent. -/
theorem settles_register (sent : List Outgoing) :
    session.Settles uri (session.register uri document, sent ++ session.publishScan uri document) where
  index := session.isIndexed_register uri document
  published := by
    intro hwanted
    rw [lastPublished_append, publishScan, lastPublished_publishing _ _ _ hwanted, problems_register]
    rfl

theorem leavesAlone_register {other : String} (hother : uri ≠ other) (sent : List Outgoing)
    (hsent : lastPublished other sent = none) :
    session.LeavesAlone other (session.register uri document, sent ++ session.publishScan uri document) where
  documents := UriMap.get?_insert_of_ne hother.symm _ _
  index := fun _ => UriMap.get?_insert_of_ne hother.symm _ _
  published := by
    rw [lastPublished_append, publishScan, lastPublished_publishing_of_ne _ _ hother, hsent]
    rfl

end Register

section Handlers

variable (session : Session) (uri other : String)

theorem openDocument_at (text : String) :
    session.LeavesAlone uri (session.openDocument other text) ∨
      session.Settles uri (session.openDocument other text) := by
  unfold openDocument
  by_cases hother : other = uri
  · subst hother
    exact Or.inr (session.settles_register other _ _)
  · refine Or.inl (session.leavesAlone_register other _ hother _ ?_)
    rw [lastPublished_append, lastPublished_traceMessage, lastPublished_traceMessage]
    rfl

theorem leavesAlone_self : session.LeavesAlone uri (session, []) :=
  ⟨rfl, fun _ => rfl, rfl⟩

theorem changeDocument_at (changes : List Change) :
    session.LeavesAlone uri (session.changeDocument other changes) ∨
      session.Settles uri (session.changeDocument other changes) := by
  unfold changeDocument
  cases session.documents.get? other with
  | none => exact Or.inl (session.leavesAlone_self uri)
  | some document =>
      by_cases hother : other = uri
      · subst hother
        exact Or.inr (session.settles_register other _ [])
      · exact Or.inl (session.leavesAlone_register other _ hother [] rfl)

/-- Scanning a file again changes the index at its URI only, and publishes nothing. -/
theorem rescan_frame (disk : Disk) {path : String} (hpath : Uri.toPath? other = some path) :
    (session.rescan disk other path).1 =
      { session with index := (session.rescan disk other path).1.index } ∧
    (uri ≠ other → (session.rescan disk other path).1.index.get? uri = session.index.get? uri) ∧
    lastPublished uri (session.rescan disk other path).2 = none := by
  unfold rescan SymbolIndex.indexFile
  cases disk.scanFile session.config.scan path with
  | ok report =>
      refine ⟨rfl, ?_, session.lastPublished_traceMessage uri _⟩
      intro hother
      rw [← Uri.ofPath_of_toPath? hpath] at hother
      exact UriMap.get?_insert_of_ne hother _ _
  | error error => exact ⟨rfl, fun hother => UriMap.get?_erase_of_ne hother _, rfl⟩

theorem saveDocument_at (disk : Disk) :
    session.LeavesAlone uri (session.saveDocument disk other) := by
  unfold saveDocument
  split_ifs with hopen
  · exact session.leavesAlone_self uri
  · cases hpath : Uri.toPath? other with
    | none => exact session.leavesAlone_self uri
    | some path =>
        obtain ⟨hrest, hindex, hsent⟩ := session.rescan_frame uri other disk hpath
        refine ⟨by rw [hrest], ?_, hsent⟩
        intro huri
        apply hindex
        rintro rfl
        exact hopen huri

/-- What closing a document does before it publishes that there are no problems any more. -/
theorem closeDocument_eq (disk : Disk) : ∃ worked : Worked,
    session.closeDocument disk other = (worked.1, worked.2 ++ worked.1.publishing other []) ∧
    worked.1 = { session with documents := session.documents.erase other, index := worked.1.index } ∧
    (uri ≠ other → worked.1.index.get? uri = session.index.get? uri) ∧
    lastPublished uri worked.2 = none := by
  unfold closeDocument
  cases hpath : (Uri.toPath? other).filter disk.isFile with
  | some path =>
      have hother := (Option.filter_eq_some_iff.mp hpath).1
      exact ⟨_, rfl,
        { session with documents := session.documents.erase other }.rescan_frame uri other disk hother⟩
  | none =>
      refine ⟨({ session with
        documents := session.documents.erase other
        index := session.index.erase other }, []), rfl, rfl, ?_, rfl⟩
      intro hother
      exact UriMap.get?_erase_of_ne hother _

theorem closeDocument_at (disk : Disk) :
    session.LeavesAlone uri (session.closeDocument disk other) ∨
      session.Settles uri (session.closeDocument disk other) := by
  obtain ⟨worked, hworked, hrest, hindex, hsent⟩ := session.closeDocument_eq uri other disk
  rw [hworked]
  by_cases hother : other = uri
  · subst hother
    have hclosed : worked.1.documents.get? other = none := by
      rw [hrest, UriMap.get?_erase_self]
    refine Or.inr ⟨?_, ?_⟩
    · intro document hopen
      rw [hclosed] at hopen
      cases hopen
    · intro hwanted
      rw [lastPublished_append, lastPublished_publishing _ _ _ (by rwa [hrest]), problems, hclosed]
      rfl
  · refine Or.inl ⟨?_, fun _ => hindex (Ne.symm hother), ?_⟩
    · rw [hrest, UriMap.get?_erase_of_ne (Ne.symm hother)]
    · rw [lastPublished_append, lastPublished_publishing_of_ne _ _ hother, hsent]
      rfl

/-! ### Indexing -/

theorem indexWorkspace_at (around : Surroundings) (root : String) :
    session.LeavesAlone uri (session.indexWorkspace around root) where
  documents := rfl
  index := fun hopen => (session.get?_indexFiles _ _ uri).trans (if_pos hopen)
  published := by
    apply lastPublished_eq_none
    intro message hmessage
    simp only [indexWorkspace, List.mem_append] at hmessage
    obtain (hasked | hreported) | hsummary := hmessage
    · split_ifs at hasked
      · rw [List.mem_singleton.mp hasked]
        rfl
      · cases hasked
    · split_ifs at hreported
      · obtain ⟨stage, -, rfl⟩ := List.mem_map.mp hreported
        rfl
      · cases hreported
    · rw [List.mem_singleton.mp hsummary]
      rfl

theorem beginWork_at (around : Surroundings) :
    session.LeavesAlone uri (session.beginWork around) := by
  unfold beginWork
  cases session.root with
  | none => exact ⟨rfl, fun _ => rfl, rfl⟩
  | some root =>
      dsimp only
      split_ifs with hwanted
      · obtain ⟨hdocuments, hindex, hsent⟩ := session.indexWorkspace_at uri around root
        exact ⟨hdocuments, hindex, hsent⟩
      · exact ⟨rfl, fun _ => rfl, rfl⟩

/-! ### Any notification -/

/-- **One notification.** It leaves what is open at the URI alone, or it settles it anew. -/
theorem notice_at (around : Surroundings) (notification : Notification) :
    session.LeavesAlone uri (session.notice around notification) ∨
      session.Settles uri (session.notice around notification) := by
  cases notification with
  | initialized => exact Or.inl (session.beginWork_at uri around)
  | opened other text => exact session.openDocument_at uri other text
  | changed other changes => exact session.changeDocument_at uri other changes
  | closed other => exact session.closeDocument_at uri other around.disk
  | saved other => exact Or.inl (session.saveDocument_at uri other around.disk)

theorem documents_notice (around : Surroundings) (notification : Notification) :
    (session.notice around notification).1.documents.get? uri =
      notification.documentAfter uri (session.documents.get? uri) := by
  cases notification with
  | initialized => exact (session.beginWork_at uri around).documents
  | saved other => exact (session.saveDocument_at uri other around.disk).documents
  | opened other text =>
      change (session.documents.insert other (.ofString text)).get? uri = ite _ _ _
      split_ifs with hother
      · rw [hother, UriMap.get?_insert_self]
      · rw [UriMap.get?_insert_of_ne (Ne.symm hother)]
  | changed other changes =>
      simp only [notice, changeDocument, Notification.documentAfter]
      split_ifs with hother
      · subst hother
        cases hopen : session.documents.get? other with
        | none => exact hopen
        | some document => exact UriMap.get?_insert_self _ _ _
      · cases session.documents.get? other with
        | none => rfl
        | some document => exact UriMap.get?_insert_of_ne (Ne.symm hother) _ _
  | closed other =>
      obtain ⟨worked, hworked, hrest, -⟩ := session.closeDocument_eq uri other around.disk
      simp only [notice, hworked, Notification.documentAfter]
      rw [hrest]
      split_ifs with hother
      · rw [hother, UriMap.get?_erase_self]
      · rw [UriMap.get?_erase_of_ne (Ne.symm hother)]

/-- A notification changes nothing but the documents and the index. -/
theorem notice_eq (around : Surroundings) (notification : Notification) :
    (session.notice around notification).1 = { session with
      documents := (session.notice around notification).1.documents
      index := (session.notice around notification).1.index } := by
  cases notification with
  | initialized =>
      simp only [notice, beginWork]
      split
      · split_ifs <;> rfl
      · rfl
  | opened other text => rfl
  | changed other changes =>
      simp only [notice, changeDocument]
      cases session.documents.get? other <;> rfl
  | closed other =>
      obtain ⟨worked, hworked, hrest, -⟩ := session.closeDocument_eq other other around.disk
      simp only [notice, hworked]
      rw [hrest]
  | saved other =>
      simp only [notice, saveDocument]
      split_ifs
      · rfl
      · cases hpath : Uri.toPath? other with
        | none => rfl
        | some path => rw [(session.rescan_frame other other around.disk hpath).1]

end Handlers

/-! ## Whole exchanges -/

/-- The problems that the editor was last told of at the URI are those of the document. If it was never
told of any, the document is not open. -/
def IsPublished (session : Session) (uri : String) (sent : List Outgoing) : Prop :=
  session.config.diagnostics →
    lastPublished uri sent = some (session.problems uri) ∨
      (session.documents.get? uri = none ∧ lastPublished uri sent = none)

section Notice

variable {session : Session} {uri : String} {sent : List Outgoing} (around : Surroundings)
  (notification : Notification)

theorem config_notice : (session.notice around notification).1.config = session.config := by
  rw [notice_eq]

theorem IsIndexed.notice (hindexed : session.IsIndexed uri) :
    (session.notice around notification).1.IsIndexed uri := by
  obtain halone | hsettles := session.notice_at uri around notification
  · intro document hopen
    rw [halone.documents] at hopen
    have hcontains : session.documents.contains uri := by simp [UriMap.contains, hopen]
    rw [halone.index hcontains, config_notice, hindexed document hopen]
  · exact hsettles.index

theorem IsPublished.notice (hpublished : session.IsPublished uri sent) :
    (session.notice around notification).1.IsPublished uri
      (sent ++ (session.notice around notification).2) := by
  intro hwanted
  rw [config_notice] at hwanted
  rw [lastPublished_append]
  obtain halone | hsettles := session.notice_at uri around notification
  · have hproblems : (session.notice around notification).1.problems uri = session.problems uri := by
      rw [problems, problems, halone.documents, config_notice]
    rw [halone.published, halone.documents, hproblems, Option.none_or]
    exact hpublished hwanted
  · rw [hsettles.published hwanted]
    exact Or.inl rfl

end Notice

structure Exchange.Coherent (exchange : Exchange) : Prop where
  fresh : exchange.session.phase = .fresh → exchange = .start
  documents : ∀ uri document, exchange.session.documents.get? uri = some document ↔
    IsOpenWith exchange.heard uri document
  index : ∀ uri, exchange.session.IsIndexed uri
  published : ∀ uri, exchange.session.IsPublished uri exchange.sent

namespace Exchange

theorem not_isOpenWith_nil (uri : String) (document : Document) : ¬IsOpenWith [] uri document := by
  rintro ⟨before, text, after, hheard, -⟩
  simp at hheard

/-- Nothing is open in a session that starts, however it is greeted. -/
theorem coherent_of_start {session : Session} (hphase : session.phase = .fresh → session = .start)
    (hdocuments : session.documents = .empty) : Coherent ⟨session, [], []⟩ where
  fresh := by
    intro hfresh
    rw [start, hphase hfresh]
  documents := by
    intro uri document
    rw [hdocuments, UriMap.get?_empty]
    simp [not_isOpenWith_nil]
  index := by
    intro uri document hopen
    rw [hdocuments, UriMap.get?_empty] at hopen
    cases hopen
  published := by
    intro uri _
    refine Or.inr ⟨?_, rfl⟩
    rw [hdocuments, UriMap.get?_empty]

variable {exchange : Exchange}

theorem Coherent.notice (hcoherent : exchange.Coherent) (around : Surroundings)
    (notification : Notification) (hphase : exchange.session.phase ≠ .fresh) :
    Coherent ⟨(exchange.session.notice around notification).1, exchange.heard ++ [notification],
      exchange.sent ++ (exchange.session.notice around notification).2⟩ where
  fresh := by
    intro hfresh
    rw [notice_eq] at hfresh
    exact absurd hfresh hphase
  documents := by
    intro uri document
    rw [documents_notice]
    exact isOpenWith_documentAfter (hcoherent.documents uri) notification document
  index := fun uri => (hcoherent.index uri).notice around notification
  published := fun uri => (hcoherent.published uri).notice around notification

theorem Coherent.onlyMovesOn (hcoherent : exchange.Coherent) {later : Session}
    (hmoves : exchange.session.OnlyMovesOn later) :
    Coherent { exchange with session := later } := by
  obtain ⟨phase, hphase, rfl⟩ := hmoves
  refine ⟨?_, hcoherent.documents, hcoherent.index, hcoherent.published⟩
  intro hfresh
  have hstart := hcoherent.fresh (hphase hfresh)
  subst hstart
  have hfresh : phase = .fresh := hfresh
  rw [hfresh]
  rfl

/-- **One message.** Whatever it is, an exchange stays coherent. -/
theorem Coherent.next (hcoherent : exchange.Coherent) (around : Surroundings) (message : Message) :
    (exchange.next around message).Coherent := by
  unfold Exchange.next
  obtain ⟨notification, hhears, hreceive⟩ | ⟨hhears, hsent, ⟨hfresh, greeting, hgreet⟩ | hmoves⟩ :=
    exchange.session.receive_cases around message
  · have hphase : exchange.session.phase ≠ .fresh := by
      intro hfresh
      simp [hears, hfresh] at hhears
    rw [hreceive, hhears]
    exact hcoherent.notice around notification hphase
  · have hstart := hcoherent.fresh hfresh
    subst hstart
    rw [hhears, hsent, hgreet]
    exact coherent_of_start (fun hphase => by cases hphase) rfl
  · rw [hhears, hsent, Option.toList_none, List.append_nil, List.append_nil]
    exact hcoherent.onlyMovesOn hmoves

theorem coherent_after (messages : List (Surroundings × Message)) : (after messages).Coherent := by
  unfold after
  have hstart : start.Coherent := coherent_of_start (fun _ => rfl) rfl
  generalize start = exchange at hstart
  induction messages generalizing exchange with
  | nil => exact hstart
  | cons message rest ih => exact ih _ (hstart.next message.1 message.2)

end Exchange

/-- **A session is coherent.** After any messages of the editor, each taken with a disk of its own, a
document is open just if the notifications say so, and its text is the one that it was last opened
with, with all changes since; the index has the symbols of that text, and if problems are published
at all, then the last ones published are those of that text. Those last published for anything that
is not open are none. -/
theorem exchange_coherent (messages : List (Surroundings × Message)) (uri : String) :
    let exchange := Exchange.after messages
    let config := exchange.session.config
    (∀ document, exchange.session.documents.get? uri = some document ↔
      IsOpenWith exchange.heard uri document) ∧
    (∀ document, exchange.session.documents.get? uri = some document →
      exchange.session.index.get? uri = some (document.scan config.scan).symbols ∧
      (config.diagnostics → lastPublished uri exchange.sent =
        some (warnings document (document.scan config.scan)))) ∧
    (exchange.session.documents.get? uri = none → config.diagnostics →
      ∀ published, lastPublished uri exchange.sent = some published → published = []) := by
  intro exchange config
  have hcoherent := Exchange.coherent_after messages
  refine ⟨hcoherent.documents uri, ?_, ?_⟩
  · intro document hopen
    refine ⟨hcoherent.index uri document hopen, ?_⟩
    intro hwanted
    obtain hpublished | ⟨hclosed, -⟩ := hcoherent.published uri hwanted
    · rw [hpublished, problems, hopen]
    · rw [hclosed] at hopen
      cases hopen
  · intro hclosed hwanted published hlast
    obtain hpublished | ⟨-, hnone⟩ := hcoherent.published uri hwanted
    · rw [problems, hclosed] at hpublished
      exact Option.some.inj (hlast.symm.trans hpublished)
    · rw [hnone] at hlast
      cases hlast

/-- A class is typed: the document is opened, and then a brace is put at its end. -/
def typing : List Message :=
  let place : Json := .obj [("line", .nat 0), ("character", .nat 13)]
  [.request "initialize" (some (.obj [("capabilities", .obj [])])),
    .notification "textDocument/didOpen" (some (.obj [("textDocument", .obj
      [("uri", .str "file:///a.php"), ("languageId", .str "php"), ("version", .nat 1),
        ("text", .str "<?php class A")])])),
    .notification "textDocument/didChange" (some (.obj [
      ("textDocument", .obj [("uri", .str "file:///a.php"), ("version", .nat 2)]),
      ("contentChanges", .arr [.obj
        [("range", .obj [("start", place), ("end", place)]), ("text", .str " \x7b")]])]))]

theorem exchange_coherent_typing :
    let exchange := Exchange.after (typing.map (⟨.empty, false⟩, ·))
    IsOpenWith exchange.heard "file:///a.php" (.ofString "<?php class A \x7b") ∧
      exchange.session.index.get? "file:///a.php" = some [⟨"A", .classDecl, 1, 12, 13, 0⟩] ∧
      lastPublished "file:///a.php" exchange.sent = some [] := by
  intro exchange
  obtain ⟨hdocuments, hagrees, -⟩ :=
    exchange_coherent (typing.map (⟨.empty, false⟩, ·)) "file:///a.php"
  have hopen : exchange.session.documents.get? "file:///a.php" =
      some (.ofString "<?php class A \x7b") := by decide +kernel
  obtain ⟨hindex, hpublished⟩ := hagrees _ hopen
  refine ⟨(hdocuments _).mp hopen, hindex.trans (by decide +kernel), ?_⟩
  exact (hpublished (by decide +kernel)).trans (by decide +kernel)

end PhpOutline.Session
