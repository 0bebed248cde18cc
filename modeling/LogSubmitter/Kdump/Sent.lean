import LogSubmitter.Kdump.Submit
import LogSubmitter.Lib.Raise
import LogSubmitter.Lib.Words
import LogSubmitter.Submit.Contents
import Mathlib.Data.List.DropRight
/-!
# What a crash dump is sent with

The members of an archive are read one after the other, and those of some names change the event.
Among them is `os-release`, a file of lines that are assignments, comments or blank.
-/
namespace LogSubmitter.Kdump

open Lib Json Submit

/-! ## `os-release` -/

/-- What is read of the file. -/
def releaseKeys : List String := ["BUILD_ID", "VERSION_ID"]

/-- A line of the file, without its end. -/
inductive Entry where
  | other (text : Line)
  | assign (key value : Line) (quoted : Bool)

def Entry.line : Entry → Line
  | .other text => text
  | .assign key value quoted => key ++ '=' :: (if quoted then '"' :: (value ++ ['"']) else value)

/-- A value that is not in quotes has nothing to strip. Quotes are not in the value themselves, at its ends. Other lines
may be anything, also assignments with spaces, but to no key that is read. -/
def Entry.Ok : Entry → Prop
  | .other text => '\n' ∉ text ∧ ('=' ∈ text → ∀ key ∈ releaseKeys, text.takeWhile (· ≠ '=') ≠ key.toList)
  | .assign key value quoted => '=' ∉ key ∧ '\n' ∉ key ∧ '\n' ∉ value ∧
    if quoted then value.head? ≠ some '"' ∧ value.getLast? ≠ some '"'
    else Str.strip value = value ∧ value.head? ≠ some '"'

def release (entries : List Entry) : Line := entries.flatMap fun e => e.line ++ ['\n']

/-- The value of the first assignment to the key. -/
def valueOf (key : String) : List Entry → Option String
  | [] => none
  | .other _ :: entries => valueOf key entries
  | .assign key' value _ :: entries => if key' = key.toList then some (String.ofList value) else valueOf key entries

theorem lines_append {l : Line} (h : '\n' ∉ l) (rest : Line) :
    lines (l ++ '\n' :: rest) = (l ++ ['\n']) :: lines rest := by
  induction l with
  | nil => rfl
  | cons c l ih =>
    rw [List.mem_cons, not_or] at h
    rw [List.cons_append, lines, if_neg (Ne.symm h.1), ih h.2]
    rfl

theorem Entry.Ok.newline {e : Entry} (h : e.Ok) : '\n' ∉ e.line := by
  cases e with
  | other text => exact h.1
  | assign key value quoted =>
    obtain ⟨-, hkey, hvalue, -⟩ := h
    unfold Entry.line
    cases quoted <;> simp [hkey, hvalue]

theorem lines_release {entries : List Entry} (h : ∀ e ∈ entries, e.Ok) :
    lines (release entries) = entries.map fun e => e.line ++ ['\n'] := by
  induction entries with
  | nil => rfl
  | cons e entries ih =>
    rw [List.forall_mem_cons] at h
    unfold release at ih ⊢
    rw [List.flatMap_cons, List.append_assoc, List.singleton_append, lines_append h.1.newline, ih h.2, List.map_cons]

theorem strip_newline (l : Line) : Str.strip (l ++ ['\n']) = Str.strip l := by
  have hspace : Str.isSpace '\n' = true := by decide
  unfold Str.strip
  rw [List.dropWhile_append]
  split
  · next h => rw [List.isEmpty_iff.1 h, List.dropWhile_cons_of_pos hspace]; rfl
  · rw [List.rdropWhile_concat_pos _ _ _ hspace]

theorem strip_quoted (value : Line) : Str.strip ('"' :: (value ++ ['"'])) = '"' :: (value ++ ['"']) := by
  have hquote : ¬Str.isSpace '"' = true := by decide
  unfold Str.strip
  rw [List.dropWhile_cons_of_neg hquote, ← List.cons_append, List.rdropWhile_concat_neg _ _ _ hquote]

theorem unquote_quoted {value : Line} (hhead : value.head? ≠ some '"') (hlast : value.getLast? ≠ some '"') :
    unquote ('"' :: (value ++ ['"'])) = value := by
  have hdrop : (value ++ ['"']).dropWhile (· = '"') = if value = [] then [] else value ++ ['"'] := by
    cases value with
    | nil => rfl
    | cons c value =>
      have hc : c ≠ '"' := by simpa using hhead
      rw [List.cons_append, List.dropWhile_cons_of_neg (by simpa using hc), if_neg (by simp)]
  have hself : value.rdropWhile (· = '"') = value := by
    rw [List.rdropWhile_eq_self_iff]
    intro hne hquote
    rw [List.getLast?_eq_some_getLast hne] at hlast
    exact hlast (congrArg some (of_decide_eq_true hquote))
  unfold unquote
  rw [if_pos ⟨by simp, rfl, by simp [List.getLast?_cons]⟩, List.dropWhile_cons_of_pos (by simp), hdrop]
  split
  · next h =>
    rw [h]
    rfl
  · rw [List.rdropWhile_concat_pos _ _ _ (by simp), hself]

theorem unquote_bare {value : Line} (h : value.head? ≠ some '"') : unquote value = value :=
  if_neg fun hquotes => h hquotes.2.1

theorem getFileKey_release {key : String} (hkey : key ∈ releaseKeys) {entries : List Entry} (h : ∀ e ∈ entries, e.Ok) :
    getFileKey key (lines (release entries)) = valueOf key entries := by
  rw [lines_release h]
  induction entries with
  | nil => rfl
  | cons e entries ih =>
    rw [List.forall_mem_cons] at h
    rw [List.map_cons, getFileKey]
    cases e with
    | other text =>
      have hno : ¬('=' ∈ text ++ ['\n'] ∧ (text ++ ['\n']).takeWhile (· ≠ '=') = key.toList) := by
        rintro ⟨hmem, hname⟩
        have hmem : '=' ∈ text := by simpa using hmem
        obtain ⟨l, r, rfl⟩ := List.append_of_mem hmem
        rw [List.append_assoc, List.cons_append, Words.takeWhile_append_stop (by simp),
          ← Words.takeWhile_append_stop (a := '=') (by simp) l r] at hname
        exact h.1.2 hmem key hkey hname
      rw [Entry.line, if_neg hno, ih h.2]
      rfl
    | assign key' value quoted =>
      obtain ⟨hkey', -, -, hvalue⟩ := h.1
      have hname : ((Entry.line (.assign key' value quoted) ++ ['\n']).takeWhile (· ≠ '=')) = key' := by
        unfold Entry.line
        rw [List.append_assoc, List.cons_append]
        exact Words.takeWhile_ne_append hkey' _
      have hmem : '=' ∈ Entry.line (.assign key' value quoted) ++ ['\n'] := by simp [Entry.line]
      have hread : unquote (Str.strip ((Entry.line (.assign key' value quoted) ++ ['\n']).drop (key'.length + 1))) =
          value := by
        have hdrop : (Entry.line (.assign key' value quoted) ++ ['\n']).drop (key'.length + 1) =
            (if quoted then '"' :: (value ++ ['"']) else value) ++ ['\n'] := by
          simp [Entry.line, List.drop_append]
        rw [hdrop, strip_newline]
        cases quoted with
        | true => rw [if_pos rfl, strip_quoted, unquote_quoted hvalue.1 hvalue.2]
        | false =>
          rw [if_neg Bool.false_ne_true]
          exact (congrArg unquote hvalue.1).trans (unquote_bare hvalue.2)
      rw [hname, hread, valueOf]
      split
      · next hk => rw [if_pos hk.2]
      · next hk => rw [if_neg fun he => hk ⟨hmem, he⟩, ih h.2]

/-! ## The archive -/

/-- What becomes of the event when a member is read, but for its message. -/
structure Reads (zname : String) (data : List UInt8) (event event' : Event) : Prop where
  attachments : event'.attachments = event.attachments ++ [⟨data, some zname, some "text/plain"⟩]
  release : isBuild zname = true → event'.osBuild = getFileKey "BUILD_ID" (lines (decodeReplace data)) ∧
    event'.version = getFileKey "VERSION_ID" (lines (decodeReplace data))
  other : isBuild zname = false → event'.osBuild = event.osBuild ∧ event'.version = event.version
  kernel : isVersion zname = true → ∃ text, decode data = some text ∧
    Assoc.get "kernel" event'.tags = some (.str (String.ofList (Str.strip text)))
  noKernel : isVersion zname = false → event'.tags = event.tags

section
variable {alphabet : Alphabet} {reader : TextReader} {zname : String} {data : List UInt8}

theorem summarize_event (s : Progress) (summary : String × List Trace × List (String × List String)) :
    ∃ message extra, (s.summarize summary).event = { s.event with message := message, extra := extra } := by
  unfold Progress.summarize
  dsimp only
  split
  · exact ⟨_, _, rfl⟩
  · exact ⟨_, _, rfl⟩

theorem member_eq (s : Progress) : Progress.member alphabet reader s zname data =
    (let event := { s.event with attachments := s.event.attachments ++ [⟨data, some zname, some "text/plain"⟩] }
    if isVersion zname then setKernel data event else .ok event) >>= fun event =>
      let event := if isBuild zname then setBuild data event else event
      if isDmesg zname then Progress.dmesg alphabet reader { s with event := event } data
      else .ok { s with event := event } := by
  unfold Progress.member
  dsimp only
  split <;> rfl

/-- The member of the kernel's version changes one tag. -/
theorem kernel_ok {event event' : Event}
    (h : (if isVersion zname then setKernel data event else .ok event) = .ok event') :
    ∃ tags, event' = { event with tags := tags } ∧
      (isVersion zname = true → ∃ text, decode data = some text ∧
        Assoc.get "kernel" tags = some (.str (String.ofList (Str.strip text)))) ∧
      (isVersion zname = false → tags = event.tags) := by
  cases hversion : isVersion zname with
  | false =>
    rw [hversion, if_neg Bool.false_ne_true] at h
    cases h
    exact ⟨event.tags, rfl, fun hyes => (Bool.false_ne_true hyes).elim, fun _ => rfl⟩
  | true =>
    rw [hversion, if_pos rfl] at h
    unfold setKernel at h
    split at h
    · cases h
    · next text htext =>
      cases h
      refine ⟨_, rfl, fun _ => ⟨text, htext, ?_⟩, fun hno => (Bool.false_ne_true hno.symm).elim⟩
      exact (Assoc.get_set _ _ _ _).trans (if_pos rfl)

/-- The messages of the kernel change the message and what goes with it. -/
theorem dmesg_ok {s s' : Progress}
    (h : (if isDmesg zname then Progress.dmesg alphabet reader s data else .ok s) = .ok s') :
    ∃ message extra, s'.event = { s.event with message := message, extra := extra } := by
  split at h
  · unfold Progress.dmesg at h
    split at h
    · cases h
    · cases h
      exact summarize_event _ _
  · cases h
    exact ⟨_, _, rfl⟩

theorem reads_of_member {s s' : Progress} (h : Progress.member alphabet reader s zname data = .ok s') :
    Reads zname data s.event s'.event := by
  rw [member_eq] at h
  obtain ⟨event, hkernel, h⟩ := Raise.bind_eq_ok.1 h
  obtain ⟨tags, rfl, hyes, hno⟩ := kernel_ok hkernel
  obtain ⟨message, extra, hevent⟩ := dmesg_ok h
  rw [hevent]
  cases hbuild : isBuild zname with
  | false =>
    rw [if_neg Bool.false_ne_true]
    exact ⟨rfl, fun hbuilt => absurd hbuild (by simp [hbuilt]), fun _ => ⟨rfl, rfl⟩, hyes, hno⟩
  | true =>
    rw [if_pos rfl]
    exact ⟨rfl, fun _ => ⟨rfl, rfl⟩, fun hother => absurd hbuild (by simp [hother]), hyes, hno⟩

/-- The loop over the members. -/
abbrev readMembers (alphabet : Alphabet) (reader : TextReader) (s : Progress) (members : List (String × List UInt8)) :
    Except Raised Progress :=
  members.foldlM (fun s p => Progress.member alphabet reader s p.1 p.2) s

/-- A member that is read after some and before others. -/
theorem readMembers_split {pre post : List (String × List UInt8)} {s s' : Progress}
    (h : readMembers alphabet reader s (pre ++ (zname, data) :: post) = .ok s') :
    ∃ s₁ s₂ : Progress, Reads zname data s₁.event s₂.event ∧ readMembers alphabet reader s₂ post = .ok s' := by
  unfold readMembers at h
  rw [List.foldlM_append] at h
  obtain ⟨s₁, -, h⟩ := Raise.bind_eq_ok.1 h
  rw [List.foldlM_cons] at h
  obtain ⟨s₂, hmember, h⟩ := Raise.bind_eq_ok.1 h
  exact ⟨s₁, s₂, reads_of_member hmember, h⟩

theorem attachments_readMembers {members : List (String × List UInt8)} {s s' : Progress}
    (h : readMembers alphabet reader s members = .ok s') :
    s'.event.attachments = s.event.attachments ++ members.map fun p => ⟨p.2, some p.1, some "text/plain"⟩ := by
  induction members generalizing s with
  | nil =>
    cases h
    simp
  | cons p members ih =>
    unfold readMembers at h
    rw [List.foldlM_cons] at h
    obtain ⟨s₁, hmember, h⟩ := Raise.bind_eq_ok.1 h
    rw [ih h, (reads_of_member hmember).attachments, List.append_assoc]
    rfl

/-- What comes after the last of the build files leaves what was read of it. -/
theorem release_readMembers {members : List (String × List UInt8)} (hm : ∀ p ∈ members, isBuild p.1 = false)
    {s s' : Progress} (h : readMembers alphabet reader s members = .ok s') :
    s'.event.osBuild = s.event.osBuild ∧ s'.event.version = s.event.version := by
  refine Raise.foldlM_keeps
    (p := fun t : Progress => t.event.osBuild = s.event.osBuild ∧ t.event.version = s.event.version)
    (fun p hp t t' ht hmember => ?_) ⟨rfl, rfl⟩ h
  obtain ⟨hosBuild, hversion⟩ := (reads_of_member hmember).other (hm p hp)
  exact ⟨hosBuild.trans ht.1, hversion.trans ht.2⟩

theorem kernel_readMembers {members : List (String × List UInt8)} (hm : ∀ p ∈ members, isVersion p.1 = false)
    {s s' : Progress} (h : readMembers alphabet reader s members = .ok s') : s'.event.tags = s.event.tags :=
  Raise.foldlM_keeps (p := fun t : Progress => t.event.tags = s.event.tags)
    (fun p hp _ _ ht hmember => ((reads_of_member hmember).noKernel (hm p hp)).trans ht) rfl h

/-- What is sent has been read, and nothing but the time and the traces is added then. -/
theorem finish_sent {s : Progress} {fname : List Char} {attachment : List UInt8} {event : Event}
    (h : s.finish fname attachment = .ok (.send event)) :
    event.attachments = s.event.attachments ++ [⟨attachment, some "kdump.zip", some "application/zip"⟩] ∧
      (∃ time, parseTime (timeText fname) = some time ∧ event.timestamp = .num time) ∧
      event.osBuild = s.event.osBuild ∧ event.version = s.event.version ∧ event.tags = s.event.tags := by
  unfold Progress.finish at h
  split at h
  · cases h
  · split at h
    · cases h
    · next time htime =>
      cases h
      exact ⟨rfl, ⟨time, htime, rfl⟩, rfl, rfl, rfl⟩

/-- An event that is made of a crash dump: all the members of the archive are attached, in their order, and then the
archive itself. The time is that of the name. The build and the version are what `os-release` assigns first, as they
are without their quotes, and the kernel is its version, each from the last member of its kind. -/
structure Sent (new : Event) (fname : List Char) (members : List (String × List UInt8)) (attachment : List UInt8)
    (event : Event) : Prop where
  attachments : event.attachments = new.attachments ++
    (members.map fun p => ⟨p.2, some p.1, some "text/plain"⟩) ++
    [⟨attachment, some "kdump.zip", some "application/zip"⟩]
  time : ∃ time, parseTime (timeText fname) = some time ∧ event.timestamp = .num time
  release : ∀ pre zname entries post, members = pre ++ (zname, encode (release entries)) :: post →
    isBuild zname = true → (∀ p ∈ post, isBuild p.1 = false) → (∀ e ∈ entries, e.Ok) →
    event.osBuild = valueOf "BUILD_ID" entries ∧ event.version = valueOf "VERSION_ID" entries
  kernel : ∀ pre zname text post, members = pre ++ (zname, encode text) :: post →
    isVersion zname = true → (∀ p ∈ post, isVersion p.1 = false) →
    Assoc.get "kernel" event.tags = some (.str (String.ofList (Str.strip text)))

theorem sent_of_reads {new event : Event} {fname : List Char} {members : List (String × List UInt8)} {s : Progress}
    {attachment : List UInt8} (hread : readMembers alphabet reader { event := new } members = .ok s)
    (h : s.finish fname attachment = .ok (.send event)) : Sent new fname members attachment event := by
  obtain ⟨hattachments, htime, hosBuild, hversion, htags⟩ := finish_sent h
  refine ⟨?_, htime, ?_, ?_⟩
  · rw [hattachments, attachments_readMembers hread]
  · intro pre zname entries post hmembers hbuild hpost hok
    rw [hmembers] at hread
    obtain ⟨s₁, s₂, hreads, hrest⟩ := readMembers_split hread
    obtain ⟨hosBuild', hversion'⟩ := release_readMembers hpost hrest
    obtain ⟨hbuildId, hversionId⟩ := hreads.release hbuild
    rw [decodeReplace_encode] at hbuildId hversionId
    rw [getFileKey_release (by decide) hok] at hbuildId hversionId
    exact ⟨hosBuild.trans (hosBuild'.trans hbuildId), hversion.trans (hversion'.trans hversionId)⟩
  · intro pre zname text post hmembers hkernel hpost
    rw [hmembers] at hread
    obtain ⟨s₁, s₂, hreads, hrest⟩ := readMembers_split hread
    obtain ⟨text', htext, htag⟩ := hreads.kernel hkernel
    rw [decode_encode] at htext
    cases htext
    rw [htags, kernel_readMembers hpost hrest]
    exact htag

end

/-! ## Nothing is lost -/

section
variable (alphabet : Alphabet) (reader : TextReader) {zname : String} {data : List UInt8}

/-- A member that is decoded can be decoded. -/
def IsText (p : String × List UInt8) : Prop := isVersion p.1 = true ∨ isDmesg p.1 = true → (decode p.2).isSome

theorem summarize_message (s : Progress) (summary : String × List Trace × List (String × List String)) :
    (s.summarize summary).event.message ≠ .value .null := by
  unfold Progress.summarize
  dsimp only
  split
  · simp
  · next hset =>
    intro hnull
    rw [hnull] at hset
    exact hset rfl

theorem setKernel_isOk (htext : (decode data).isSome) (event : Event) :
    ∃ event', setKernel data event = .ok event' ∧ event'.message = event.message := by
  obtain ⟨text, htext⟩ := Option.isSome_iff_exists.1 htext
  unfold setKernel
  rw [htext]
  exact ⟨_, rfl, rfl⟩

theorem dmesg_isOk (htext : (decode data).isSome) (s : Progress) :
    ∃ s', Progress.dmesg alphabet reader s data = .ok s' ∧ s'.event.message ≠ .value .null := by
  obtain ⟨text, htext⟩ := Option.isSome_iff_exists.1 htext
  unfold Progress.dmesg
  rw [reader.decoded data text htext, if_neg (by simp)]
  exact ⟨_, rfl, summarize_message _ _⟩

/-- A member that is text is read, and there is a message then if there was one or the member has it. -/
theorem member_isOk (htext : IsText (zname, data)) (s : Progress) :
    ∃ s', Progress.member alphabet reader s zname data = .ok s' ∧
      (isDmesg zname = true ∨ s.event.message ≠ .value .null → s'.event.message ≠ .value .null) := by
  rw [member_eq]
  dsimp only
  generalize he : ({ s.event with attachments := s.event.attachments ++
    [⟨data, some zname, some "text/plain"⟩] } : Event) = e
  have hmessage : e.message = s.event.message := by rw [← he]
  obtain ⟨event, hkernel, hevent⟩ : ∃ event, (if isVersion zname then setKernel data e else .ok e) = .ok event ∧
      event.message = e.message := by
    split
    · next hversion => exact setKernel_isOk (htext (.inl hversion)) e
    · exact ⟨e, rfl, rfl⟩
  rw [hkernel]
  show ∃ s', (if isDmesg zname = true then _ else _) = Except.ok s' ∧ _
  split
  · next hdmesg =>
    obtain ⟨s', hs', hsaid⟩ := dmesg_isOk alphabet reader (htext (.inr hdmesg)) _
    exact ⟨s', hs', fun _ => hsaid⟩
  · next hdmesg =>
    refine ⟨_, rfl, fun hsaid => ?_⟩
    have hkept : (if isBuild zname = true then setBuild data event else event).message = s.event.message := by
      rw [← hmessage, ← hevent]
      split <;> rfl
    rw [hkept]
    exact hsaid.resolve_left hdmesg

theorem readMembers_isOk {members : List (String × List UInt8)} (htext : ∀ p ∈ members, IsText p) (s : Progress) :
    ∃ s', readMembers alphabet reader s members = .ok s' ∧
      ((∃ p ∈ members, isDmesg p.1 = true) ∨ s.event.message ≠ .value .null → s'.event.message ≠ .value .null) := by
  induction members generalizing s with
  | nil => exact ⟨s, rfl, fun hsaid => hsaid.resolve_left (by simp)⟩
  | cons p members ih =>
    rw [List.forall_mem_cons] at htext
    obtain ⟨s₁, hmember, hsaid₁⟩ := member_isOk alphabet reader htext.1 s
    obtain ⟨s', hrest, hsaid⟩ := ih htext.2 s₁
    unfold readMembers at hrest ⊢
    rw [List.foldlM_cons, hmember]
    refine ⟨s', hrest, fun h => hsaid ?_⟩
    simp only [List.mem_cons, exists_eq_or_imp] at h
    obtain (hdmesg | hlater) | hbefore := h
    · exact .inr (hsaid₁ (.inl hdmesg))
    · exact .inl hlater
    · exact .inr (hsaid₁ (.inr hbefore))

theorem finish_isOk {s : Progress} (hsaid : s.event.message ≠ .value .null) {fname : List Char} {time : Int}
    (htime : parseTime (timeText fname) = some time) (attachment : List UInt8) :
    ∃ event, s.finish fname attachment = .ok (.send event) := by
  unfold Progress.finish
  split
  · next hnull => exact absurd hnull hsaid
  · rw [htime]
    exact ⟨_, rfl⟩

end

/-- What is made of a crash dump is made as it should be, and it is made of each that has the messages of the kernel
and a time in its name, if only what is read as text is text. -/
theorem crash_is_sent (alphabet : Alphabet) (reader : TextReader) (new : Event) (fname : List Char)
    (members : Dict String (List UInt8)) (file : Option (List UInt8)) :
    (∀ event, submit alphabet reader new fname (.members members) file = .ok (.send event) →
      ∃ attachment, file = some attachment ∧ Sent new fname members.items attachment event) ∧
    (file.isSome → (parseTime (timeText fname)).isSome → (∀ p ∈ members.items, IsText p) →
      (∃ p ∈ members.items, isDmesg p.1 = true) →
      ∃ event, submit alphabet reader new fname (.members members) file = .ok (.send event)) := by
  unfold submit
  refine ⟨fun event h => ?_, fun hfile htime htext hdmesg => ?_⟩
  · obtain ⟨s, hread, h⟩ := Raise.bind_eq_ok.1 h
    cases file with
    | none => cases h
    | some attachment => exact ⟨attachment, rfl, sent_of_reads hread h⟩
  · obtain ⟨attachment, rfl⟩ := Option.isSome_iff_exists.1 hfile
    obtain ⟨time, htime⟩ := Option.isSome_iff_exists.1 htime
    obtain ⟨s, hread, hsaid⟩ := readMembers_isOk alphabet reader htext { event := new }
    obtain ⟨event, hfinish⟩ := finish_isOk (hsaid (.inl hdmesg)) htime attachment
    exact ⟨event, Raise.bind_eq_ok.2 ⟨s, hread, hfinish⟩⟩

def deckRelease : List Entry :=
  [.other "NAME = \"SteamOS\" ".toList, .other "# the build".toList,
    .assign "VERSION_ID".toList "3.5.7".toList false, .other [], .assign "BUILD_ID".toList "20231122.1".toList true]

def deckMembers : Dict String (List UInt8) :=
  ⟨[("build.txt", encode (release deckRelease)), ("dmesg.txt", encode "Kernel panic - not syncing\n".toList),
    ("version.txt", encode "6.1.52-valve9\n".toList)], by decide⟩

theorem deckRelease_ok : ∀ e ∈ deckRelease, e.Ok := by
  simp only [deckRelease, List.forall_mem_cons, Entry.Ok]
  exact ⟨by decide, by decide, by decide +kernel, by decide, by decide, by simp⟩

theorem deckMembers_text : ∀ p ∈ deckMembers.items, IsText p := by
  unfold IsText deckMembers
  simp only [List.forall_mem_cons, decode_encode, Option.isSome_some, implies_true, List.not_mem_nil, false_imp_iff,
    and_true]

/-- The crash of a machine, with its build in quotes and its version without. -/
theorem deck_crash_is_sent :
    ∃ event, submit ascii wholeReader { osBuild := none, version := none } "kdump-202401021504.zip".toList
        (.members deckMembers) (some [80, 75]) = .ok (.send event) ∧ event.attachments.length = 4 ∧
      event.timestamp = .num 1704207840 ∧ event.osBuild = some "20231122.1" ∧ event.version = some "3.5.7" ∧
      Assoc.get "kernel" event.tags = some (.str "6.1.52-valve9") := by
  have htime : parseTime (timeText "kdump-202401021504.zip".toList) = some 1704207840 := by decide +kernel
  obtain ⟨hsent, hmade⟩ := crash_is_sent ascii wholeReader { osBuild := none, version := none }
    "kdump-202401021504.zip".toList deckMembers (some [80, 75])
  obtain ⟨event, h⟩ := hmade rfl (Option.isSome_iff_exists.2 ⟨_, htime⟩) deckMembers_text
    ⟨_, List.mem_cons_of_mem _ (List.mem_cons_self ..), by decide⟩
  obtain ⟨attachment, -, hsent⟩ := hsent event h
  obtain ⟨hosBuild, hversion⟩ := hsent.release [] "build.txt" deckRelease _ rfl (by decide) (by decide) deckRelease_ok
  obtain ⟨time, htime', htimestamp⟩ := hsent.time
  refine ⟨event, h, ?_, ?_, hosBuild, hversion, ?_⟩
  · rw [hsent.attachments]
    rfl
  · rw [htime] at htime'
    cases htime'
    exact htimestamp
  · exact hsent.kernel (deckMembers.items.take 2) "version.txt" _ [] rfl (by decide) (by simp)

end LogSubmitter.Kdump
