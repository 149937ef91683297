import PhpOutline.Proofs.ByteReading
import PhpOutline.Proofs.SessionCoherence

/-!
# Notifications about one document

All notifications but one are about a document, and what they do is a matter of its URI alone. What a
session holds at the URI afterwards depends on what it held there before, on the options and on the
disk, and what it holds at any other URI stays. That closing and saving write to the index at the URI
they are about is not plain to see: they turn it into a path, and the file is indexed under the URI that
the path is turned into. So notifications about different documents can change places, and a document
that is opened, edited and closed leaves behind no more than its file.
-/

namespace PhpOutline

/-- What scanning a file comes to: a file that can be looked up is read to its end. -/
theorem Disk.scanFile_eq (disk : Disk) (options : ScanOptions) (path : String) :
    disk.scanFile options path =
      match disk.resolve path with
      | .ok (.file _ content) => .ok (scan options (Utf8.lossyText content))
      | .ok (.directory _) => .error (.cannotRead (.system .isADirectory))
      | .error error => .error (.cannotOpen path error) := by
  unfold scanFile
  cases disk.resolve path with
  | error error => rfl
  | ok target =>
      cases target with
      | file place content =>
          dsimp only [Target.source]
          rw [ByteSource.scan_eq options (by simp), if_neg (by simp [ByteSource.fails])]
      | directory place =>
          dsimp only [Target.source]
          rw [ByteSource.scan_eq options (by simp), if_pos (by simp [ByteSource.fails])]

namespace Session

/-- The document that a notification is about. -/
def Notification.uri? : Notification → Option String
  | initialized => none
  | opened uri _ | changed uri _ | closed uri | saved uri => some uri

/-- What a session holds at a URI. -/
structure Holding where
  document : Option Document
  symbols : Option (List Symbol)
deriving DecidableEq, Repr

def holding (session : Session) (uri : String) : Holding :=
  ⟨session.documents.get? uri, session.index.get? uri⟩

/-- What is held at the URI of an open document. -/
def Holding.ofDocument (options : ScanOptions) (document : Document) : Holding :=
  ⟨some document, some (document.scan options).symbols⟩

/-- The symbols of the file that a URI names, if it is a file URI and there is such a file. -/
def fileSymbols? (disk : Disk) (options : ScanOptions) (uri : String) : Option (List Symbol) :=
  (Uri.toPath? uri).bind fun path =>
    match disk.resolve path with
    | .ok (.file _ content) => some (scan options (Utf8.lossyText content)).symbols
    | _ => none

/-- What a notification makes of what is held at the URI that it is about. -/
def Notification.holdingAfter (options : ScanOptions) (disk : Disk) (held : Holding) :
    Notification → Holding
  | initialized => held
  | opened _ text => .ofDocument options (.ofString text)
  | changed _ changes =>
    match held.document with
    | some document => .ofDocument options (changes.foldl Change.apply document)
    | none => held
  | closed uri => ⟨none, fileSymbols? disk options uri⟩
  | saved uri =>
    if held.document.isSome ∨ Uri.toPath? uri = none then held
    else { held with symbols := fileSymbols? disk options uri }

/-- The later session holds this at the URI, and elsewhere what the session holds. -/
structure ChangesTo (session : Session) (uri : String) (held : Holding) (later : Session) : Prop where
  self : later.holding uri = held
  others : ∀ other, other ≠ uri → later.holding other = session.holding other

/-! ## Handlers -/

section Handlers

variable (session : Session) (uri : String) (disk : Disk)

theorem changesTo_self : session.ChangesTo uri (session.holding uri) session := ⟨rfl, fun _ _ => rfl⟩

theorem changesTo_register (document : Document) :
    session.ChangesTo uri (.ofDocument session.config.scan document) (session.register uri document) where
  self := by rw [holding, register, UriMap.get?_insert_self, UriMap.get?_insert_self]; rfl
  others := by
    intro other hother
    rw [holding, register, UriMap.get?_insert_of_ne hother, UriMap.get?_insert_of_ne hother]
    rfl

theorem changesTo_changeDocument (changes : List Change) :
    session.ChangesTo uri
      ((Notification.changed uri changes).holdingAfter session.config.scan disk (session.holding uri))
      (session.changeDocument uri changes).1 := by
  simp only [changeDocument, Notification.holdingAfter, holding]
  cases hopen : session.documents.get? uri with
  | some document => exact session.changesTo_register uri _
  | none =>
      dsimp only
      rw [← hopen]
      exact session.changesTo_self uri

theorem changesTo_insert (symbols : List Symbol) :
    session.ChangesTo uri ⟨session.documents.get? uri, some symbols⟩
      { session with index := session.index.insert uri symbols } where
  self := by rw [holding, UriMap.get?_insert_self]
  others := fun other hother => by rw [holding, UriMap.get?_insert_of_ne hother]; rfl

theorem changesTo_erase :
    session.ChangesTo uri ⟨session.documents.get? uri, none⟩
      { session with index := session.index.erase uri } where
  self := by rw [holding, UriMap.get?_erase_self]
  others := fun other hother => by rw [holding, UriMap.get?_erase_of_ne hother]; rfl

/-- A file is scanned into the index at its own URI, or dropped there if it cannot be read. -/
theorem changesTo_rescan {path : String} (hpath : Uri.toPath? uri = some path) :
    session.ChangesTo uri ⟨session.documents.get? uri, fileSymbols? disk session.config.scan uri⟩
      (session.rescan disk uri path).1 := by
  unfold rescan SymbolIndex.indexFile fileSymbols?
  rw [Disk.scanFile_eq, hpath, Uri.ofPath_of_toPath? hpath, Option.bind_some]
  cases disk.resolve path with
  | error error => exact session.changesTo_erase uri
  | ok target =>
      cases target with
      | file place content => exact session.changesTo_insert uri _
      | directory place => exact session.changesTo_erase uri

theorem fileSymbols?_eq_none {uri : String} {disk : Disk}
    (hnone : (Uri.toPath? uri).filter disk.isFile = none) (options : ScanOptions) :
    fileSymbols? disk options uri = none := by
  unfold fileSymbols?
  cases hpath : Uri.toPath? uri with
  | none => rfl
  | some path =>
      have hfile : disk.isFile path = false := by simpa [hpath] using hnone
      rw [Option.bind_some]
      unfold Disk.isFile at hfile
      generalize disk.resolve path = resolved at hfile ⊢
      match resolved with
      | .error _ => rfl
      | .ok (.directory _) => rfl
      | .ok (.file _ _) => cases hfile

theorem changesTo_closeDocument :
    session.ChangesTo uri ⟨none, fileSymbols? disk session.config.scan uri⟩
      (session.closeDocument disk uri).1 := by
  have herased := session.documents.get?_erase_self uri
  -- the document goes first, and the index is brought up to date after that
  have hchanges : ({ session with documents := session.documents.erase uri } : Session).ChangesTo uri
      ⟨none, fileSymbols? disk session.config.scan uri⟩ (session.closeDocument disk uri).1 := by
    unfold closeDocument
    rw [← herased]
    cases hpath : (Uri.toPath? uri).filter disk.isFile with
    | some path => exact changesTo_rescan _ uri disk (Option.filter_eq_some_iff.mp hpath).1
    | none =>
        rw [fileSymbols?_eq_none hpath]
        exact changesTo_erase _ uri
  refine ⟨hchanges.self, fun other hother => ?_⟩
  rw [hchanges.others other hother, holding, UriMap.get?_erase_of_ne hother]
  rfl

theorem changesTo_saveDocument :
    session.ChangesTo uri
      ((Notification.saved uri).holdingAfter session.config.scan disk (session.holding uri))
      (session.saveDocument disk uri).1 := by
  have hcontains : (session.holding uri).document.isSome = session.documents.contains uri := rfl
  simp only [saveDocument, Notification.holdingAfter, hcontains]
  by_cases hopen : session.documents.contains uri
  · rw [if_pos hopen, if_pos (Or.inl hopen)]
    exact session.changesTo_self uri
  · rw [if_neg hopen]
    cases hpath : Uri.toPath? uri with
    | none =>
        rw [if_pos (Or.inr rfl)]
        exact session.changesTo_self uri
    | some path =>
        rw [if_neg (not_or_intro hopen (Option.some_ne_none path))]
        exact session.changesTo_rescan uri disk hpath

end Handlers

/-! ## Notifications -/

section Notices

variable (session : Session) (around : Surroundings) {uri : String} {notification : Notification}

/-- **One notification.** What it does at its URI depends on what is held there, and it does nothing
elsewhere. -/
theorem changesTo_notice (huri : notification.uri? = some uri) :
    session.ChangesTo uri
      (notification.holdingAfter session.config.scan around.disk (session.holding uri))
      (session.notice around notification).1 := by
  cases notification with
  | initialized => cases huri
  | opened other text =>
      obtain rfl := Option.some.inj huri
      exact session.changesTo_register other _
  | changed other changes =>
      obtain rfl := Option.some.inj huri
      exact session.changesTo_changeDocument other around.disk changes
  | closed other =>
      obtain rfl := Option.some.inj huri
      exact session.changesTo_closeDocument other around.disk
  | saved other =>
      obtain rfl := Option.some.inj huri
      exact session.changesTo_saveDocument other around.disk

/-- A notification about another document makes no difference, whether it comes before or after. -/
theorem holding_notice_notice {other : String} {elsewhere : Notification}
    (huri : notification.uri? = some uri) (hother : elsewhere.uri? = some other) (hne : uri ≠ other) :
    ((session.notice around elsewhere).1.notice around notification).1.holding uri =
        (session.notice around notification).1.holding uri ∧
      ((session.notice around notification).1.notice around elsewhere).1.holding uri =
        (session.notice around notification).1.holding uri := by
  have hsame : (session.notice around elsewhere).1.holding uri = session.holding uri :=
    (session.changesTo_notice around hother).others uri hne
  constructor
  · rw [((session.notice around elsewhere).1.changesTo_notice around huri).self, config_notice, hsame,
      (session.changesTo_notice around huri).self]
  · exact ((session.notice around notification).1.changesTo_notice around hother).others uri hne

/-- Takes notifications one after the other, while the surroundings stay the same. -/
def noticeAll (session : Session) (around : Surroundings) (notifications : List Notification) :
    Session :=
  notifications.foldl (fun session notification => (session.notice around notification).1) session

/-- **Notifications about one document.** What they make of what is held at the URI is found one after
the other, and all else stays. -/
theorem changesTo_noticeAll {notifications : List Notification}
    (huri : ∀ notification ∈ notifications, notification.uri? = some uri) :
    session.ChangesTo uri
      (notifications.foldl (Notification.holdingAfter session.config.scan around.disk)
        (session.holding uri))
      (session.noticeAll around notifications) := by
  induction notifications generalizing session with
  | nil => exact session.changesTo_self uri
  | cons notification rest ih =>
      have hfirst := session.changesTo_notice around (huri notification (List.mem_cons_self ..))
      have hrest := ih (session.notice around notification).1 fun later hlater =>
        huri later (List.mem_cons_of_mem _ hlater)
      rw [hfirst.self, config_notice] at hrest
      exact ⟨hrest.self, fun other hother =>
        (hrest.others other hother).trans (hfirst.others other hother)⟩

theorem notice_changed_of_closed (hclosed : session.documents.get? uri = none) (changes : List Change) :
    session.notice around (.changed uri changes) = (session, []) := by
  rw [notice, changeDocument, hclosed]

/-- A file that is there is scanned as its bytes decode. -/
theorem exists_fileSymbols?_eq {path : String} {place : List String} {content : List UInt8}
    {disk : Disk} (hpath : Uri.toPath? uri = some path)
    (hfile : disk.resolve path = .ok (.file place content)) (options : ScanOptions) :
    ∃ text : String, Utf8.Lossy content text.toList ∧
      fileSymbols? disk options uri = some (scan options text).symbols := by
  refine ⟨Utf8.lossyText content, Utf8.lossy_lossyText content, ?_⟩
  rw [fileSymbols?, hpath, Option.bind_some, hfile]

end Notices

/-- **Documents are apart.** Two notifications about different documents can change places: what the
session holds at any URI is the same in the end. A notification about one document leaves alone what is
held at all other URIs. Changes of a document that is not open are ignored. -/
theorem notice_local (session : Session) (around : Surroundings) :
    (∀ (first second : Notification) (u v : String), first.uri? = some u → second.uri? = some v →
      u ≠ v → ∀ uri,
        ((session.notice around first).1.notice around second).1.holding uri =
          ((session.notice around second).1.notice around first).1.holding uri) ∧
    (∀ (notification : Notification) (u : String), notification.uri? = some u → ∀ other, other ≠ u →
      (session.notice around notification).1.holding other = session.holding other) ∧
    ∀ (uri : String) (changes : List Change), session.documents.get? uri = none →
      session.notice around (.changed uri changes) = (session, []) := by
  refine ⟨?_, ?_, ?_⟩
  · intro first second u v hfirst hsecond hne uri
    by_cases hu : uri = u
    · subst hu
      obtain ⟨hbefore, hafter⟩ := session.holding_notice_notice around hfirst hsecond hne
      rw [hafter, hbefore]
    · by_cases hv : uri = v
      · subst hv
        obtain ⟨hbefore, hafter⟩ := session.holding_notice_notice around hsecond hfirst hne.symm
        rw [hbefore, hafter]
      · rw [((session.notice around first).1.changesTo_notice around hsecond).others uri hv,
          (session.changesTo_notice around hfirst).others uri hu,
          ((session.notice around second).1.changesTo_notice around hfirst).others uri hu,
          (session.changesTo_notice around hsecond).others uri hv]
  · intro notification u huri
    exact (session.changesTo_notice around huri).others
  · intro uri changes hclosed
    exact session.notice_changed_of_closed around hclosed changes

/-- There is one file, with a class in it. -/
def oneFile : Surroundings := ⟨⟨[(["a.php"], .file "<?php class A \x7b".toUTF8.data.toList)]⟩, false⟩

/-- A session with a document that is open. -/
def editingTrait : Session := (Session.start.openDocument "file:///b.php" "<?php trait B \x7b").1

/-- One document is closed that has no file, and the file of another one, which is not open, is
saved. -/
theorem notice_local_close_and_save :
    ((editingTrait.notice oneFile (.closed "file:///b.php")).1.notice oneFile
        (.saved "file:///a.php")).1.holding "file:///a.php" =
      ((editingTrait.notice oneFile (.saved "file:///a.php")).1.notice oneFile
        (.closed "file:///b.php")).1.holding "file:///a.php" ∧
    (editingTrait.notice oneFile (.saved "file:///a.php")).1.holding "file:///a.php" =
      ⟨none, some [⟨"A", .classDecl, 1, 12, 13, 0⟩]⟩ ∧
    (editingTrait.notice oneFile (.saved "file:///a.php")).1.holding "file:///b.php" =
      ⟨some (.ofString "<?php trait B \x7b"), some [⟨"B", .classDecl, 1, 12, 13, 0⟩]⟩ ∧
    editingTrait.notice oneFile (.changed "file:///a.php" [⟨none, "<?php"⟩]) = (editingTrait, []) := by
  obtain ⟨hcomm, hframe, hignored⟩ := notice_local editingTrait oneFile
  refine ⟨hcomm _ _ "file:///b.php" "file:///a.php" rfl rfl (by decide) _, by decide +kernel, ?_,
    hignored _ _ (by decide +kernel)⟩
  exact (hframe _ "file:///a.php" rfl "file:///b.php" (by decide)).trans (by decide +kernel)

/-- **Closing forgets the editing.** Let a document that is not open be opened with any text, changed in
any way and closed. Then it is not open, all other documents and their symbols are as before, and its
own symbols are those of its file, decoded with losses, or none if there is no such file. For a file
URI, the session is as if the document had just been saved. -/
theorem noticeAll_open_edit_close (session : Session) (around : Surroundings) (uri text : String)
    (edits : List (List Change)) (hclosed : session.documents.get? uri = none) :
    let later := session.noticeAll around
      (.opened uri text :: edits.map (.changed uri) ++ [.closed uri])
    later.documents.get? uri = none ∧
    (∀ other, other ≠ uri → later.holding other = session.holding other) ∧
    (∀ path place content, Uri.toPath? uri = some path →
      around.disk.resolve path = .ok (.file place content) →
        ∃ decoded : String, Utf8.Lossy content decoded.toList ∧
          later.index.get? uri = some (scan session.config.scan decoded).symbols) ∧
    ((∀ path, Uri.toPath? uri = some path → around.disk.isFile path = false) →
      later.index.get? uri = none) ∧
    ((Uri.toPath? uri).isSome →
      ∀ other, later.holding other = (session.notice around (.saved uri)).1.holding other) := by
  intro later
  have hchanges : session.ChangesTo uri
      ⟨none, fileSymbols? around.disk session.config.scan uri⟩ later := by
    have habout : ∀ notification ∈ Notification.opened uri text :: edits.map (.changed uri) ++
        [.closed uri], notification.uri? = some uri := by
      intro notification hnotification
      simp only [List.cons_append, List.mem_cons, List.mem_append, List.mem_map,
        List.not_mem_nil, or_false] at hnotification
      obtain rfl | ⟨changes, -, rfl⟩ | rfl := hnotification <;> rfl
    have hall := session.changesTo_noticeAll around habout
    rwa [List.foldl_concat] at hall
  have hdocument : later.documents.get? uri = none := congrArg Holding.document hchanges.self
  have hsymbols : later.index.get? uri = fileSymbols? around.disk session.config.scan uri :=
    congrArg Holding.symbols hchanges.self
  refine ⟨hdocument, hchanges.others, ?_, ?_, ?_⟩
  · intro path place content hpath hfile
    rw [hsymbols]
    exact exists_fileSymbols?_eq hpath hfile _
  · intro hnone
    rw [hsymbols]
    apply fileSymbols?_eq_none
    rw [Option.filter_eq_none_iff]
    intro path hpath
    rw [hnone path hpath]
    exact Bool.false_ne_true
  · intro hfileUri other
    obtain ⟨path, hpath⟩ := Option.isSome_iff_exists.mp hfileUri
    have hsaved : session.ChangesTo uri
        ((Notification.saved uri).holdingAfter session.config.scan around.disk (session.holding uri))
        (session.notice around (.saved uri)).1 := session.changesTo_notice around rfl
    by_cases hother : other = uri
    · subst hother
      rw [hchanges.self, hsaved.self]
      simp [Notification.holdingAfter, holding, hclosed, hpath]
    · rw [hchanges.others other hother, hsaved.others other hother]

/-- A document is opened with another text than that of its file, and edited twice. -/
theorem noticeAll_open_edit_close_class :
    let later := editingTrait.noticeAll oneFile [.opened "file:///a.php" "",
      .changed "file:///a.php" [⟨none, "<?php function f"⟩, ⟨some ⟨0, 16, 0, 16⟩, "("⟩],
      .changed "file:///a.php" [], .closed "file:///a.php"]
    later.holding "file:///a.php" = ⟨none, some [⟨"A", .classDecl, 1, 12, 13, 0⟩]⟩ ∧
      later.holding "file:///b.php" = editingTrait.holding "file:///b.php" ∧
      later.holding "file:///a.php" =
        (editingTrait.notice oneFile (.saved "file:///a.php")).1.holding "file:///a.php" := by
  intro later
  have hclosed : editingTrait.documents.get? "file:///a.php" = none := by decide +kernel
  obtain ⟨hdocument, hothers, hfile, -, hsaved⟩ :=
    noticeAll_open_edit_close editingTrait oneFile "file:///a.php" ""
      [[⟨none, "<?php function f"⟩, ⟨some ⟨0, 16, 0, 16⟩, "("⟩], []] hclosed
  obtain ⟨decoded, hlossy, hindex⟩ := hfile "/a.php" ["a.php"] _ (by decide +kernel) rfl
  have htext := Utf8.lossy_lossyText "<?php class A \x7b".toUTF8.data.toList
  rw [Utf8.lossyText_toUTF8] at htext
  obtain rfl : decoded = "<?php class A \x7b" := String.toList_inj.1 (hlossy.unique htext)
  have hsymbols : (scan editingTrait.config.scan "<?php class A \x7b").symbols =
      [⟨"A", .classDecl, 1, 12, 13, 0⟩] := by decide +kernel
  refine ⟨?_, hothers _ (by decide), hsaved (by decide +kernel) _⟩
  exact congrArg₂ Holding.mk hdocument (hindex.trans (congrArg some hsymbols))

end Session

end PhpOutline
