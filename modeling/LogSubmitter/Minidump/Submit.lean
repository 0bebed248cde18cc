import LogSubmitter.Lib.Struct
import LogSubmitter.Minidump
import LogSubmitter.Minidump.Packages
/-!
# What is sent with a minidump

`submit` goes through the directory of the streams, and takes the command line, the environment and the files that were
mapped out of those that Breakpad has put there.
-/
namespace LogSubmitter.Minidump

open Lib Json
open Submit (Raised Event Submission)
open Packages (Text)

abbrev Bytes := List UInt8

/-! ## The code -/

/-- `MD_LINUX_CMD_LINE` -/
def linuxCmdLine : Nat := 0x47670006

/-- `MD_LINUX_ENVIRON` -/
def linuxEnviron : Nat := 0x47670007

/-- `MD_LINUX_MAPS` -/
def linuxMaps : Nat := 0x47670009

structure Header where
  numberOfStreams : Nat
  streamDirectoryRva : Nat

/-- The library for minidumps, and `pacman`. -/
structure Tools where
  /-- `AMinidumpFile.parse`, `none` where it raises one of the exceptions of the library. -/
  parse : Bytes → Option Header
  /-- `DataSize` and `Rva` of the `MINIDUMP_LOCATION_DESCRIPTOR` at the start. -/
  location : Bytes → Nat × Nat
  pacman : List Text → Except Raised Text

/-- `bytes.decode(errors='replace')` -/
def text (bytes : Bytes) : String := String.ofList (decodeReplace bytes)

/-- `seek` and `read` -/
def readAt (data : Bytes) (offset size : Nat) : Bytes := (data.drop offset).take size

def cmdline (data : Bytes) : Json := .arr ((data.splitOn 0).map fun arg => .str (text arg))

/-- A variable, with what is before the first `=` and what comes after it. -/
def envvar (env : Dict String String) (var : Bytes) : Dict String String :=
  if var = [] then env
  else
    match var.dropWhile (· ≠ '='.toUInt8) with
    | [] => env
    | _ :: value => env.insert (text (var.takeWhile (· ≠ '='.toUInt8))) (text value)

def environ (data : Bytes) : Dict String String := (data.splitOn 0).foldl envvar .empty

/-- `line.split(maxsplit=n)` -/
def splitMax : Nat → Text → List Text
  | 0, line =>
    match line.dropWhile Str.isSpace with
    | [] => []
    | rest => [rest]
  | n + 1, line =>
    match line.dropWhile Str.isSpace with
    | [] => []
    | rest => (rest.takeWhile fun c => !Str.isSpace c) :: splitMax n (rest.dropWhile fun c => !Str.isSpace c)

/-- `mapped_files` -/
def mappedFiles (maps : Text) : List Text := (maps.splitOn '\n').filterMap fun line => (splitMax 5 line)[5]?

def environJson (env : Dict String String) : Json := .obj (env.items.map fun p => (p.1, .str p.2))

def packagesJson (packages : Dict Text Text) : Json :=
  .obj (packages.items.map fun p => (String.ofList p.1, .str (String.ofList p.2)))

section
variable (tools : Tools)

/-- One stream, as `submit` finds it. -/
def readStream (extra : List (String × Json)) (type : Nat) (data : Bytes) : Except Raised (List (String × Json)) :=
  if type = linuxCmdLine then .ok (Assoc.set "cmdline" (cmdline data) extra)
  else if type = linuxEnviron then
    if data = [] then .ok extra
    else .ok (Assoc.set "environ" (environJson (sanitizeEnviron (environ data))) extra)
  else if type = linuxMaps then do
    let packages ← Packages.getPathsPackages tools.pacman (mappedFiles (decodeReplace data))
    if packages.items = [] then return extra else return Assoc.set "packages" (packagesJson packages) extra
  else .ok extra

/-- The streams of the directory. -/
def readStreams (data : Bytes) (header : Header) (extra : List (String × Json)) :
    Except Raised (List (String × Json)) :=
  (List.range header.numberOfStreams).foldlM (fun extra i =>
    let entry := header.streamDirectoryRva + i * 12
    let loc := tools.location (data.drop (entry + 4))
    readStream tools extra (Struct.number (readAt data entry 4)) (readAt data loc.2 loc.1)) extra

/-- The id that ends the name. -/
def nameAppid (fname : List Char) : Option Int :=
  ((Submit.stem fname).splitOn '-').getLast?.bind fun part => Str.int (String.ofList part)

def attributes : List String := ["executable", "comm", "path", "build_id", "pkgname", "pkgver"]

/-- The attributes that the file has. -/
def setTags (xattr : String → Option Bytes) (tags : List (String × Json)) : List (String × Json) :=
  attributes.foldl (fun tags attr =>
    match xattr attr with
    | none => tags
    | some value => Assoc.set attr (.str (text value)) tags) tags

/-- `MinidumpHelper.submit`, up to `send_minidump`. The file is `none` if it cannot be opened. -/
def submit (new : Event) (fname : List Char) (xattr : String → Option Bytes) (file : Option Bytes) : Submission :=
  let event := { new with appid := (nameAppid fname).elim new.appid .num, tags := setTags xattr new.tags }
  match file with
  | none => .error .osError
  | some data =>
    match tools.parse data with
    | none => .ok (.send event)
    | some header => do
      let extra ← readStreams tools data header event.extra
      return .send { event with extra }

end

/-! ## A dump -/

/-- A field of a line of `/proc/self/maps`. -/
abbrev Field := Words.Word Str.isSpace

/-- A line of `/proc/self/maps`: five fields, and the file, if one is mapped. -/
structure Mapping where
  fields : List Field
  five : fields.length = 5
  padding : Nat
  file : Option Text
  file_ok : ∀ path ∈ file, '\n' ∉ path ∧ ∃ c rest, path = c :: rest ∧ Str.isSpace c = false

def Mapping.line (m : Mapping) : Text :=
  m.fields.flatMap (fun f => f.text ++ [' ']) ++ (List.replicate m.padding ' ' ++ m.file.getD [])

/-- What is put in a stream. -/
inductive Payload where
  | cmdLine (args : List Bytes)
  | environ (vars : List (Bytes × Bytes))
  | maps (mappings : List Mapping)
  | other (type : Nat) (content : Bytes)

namespace Payload

def type : Payload → Nat
  | cmdLine _ => linuxCmdLine
  | environ _ => linuxEnviron
  | maps _ => linuxMaps
  | other type _ => type

/-- The stream, as the kernel gives it to Breakpad. -/
def content : Payload → Bytes
  | cmdLine args => [0].intercalate args
  | environ vars => vars.flatMap fun v => v.1 ++ '='.toUInt8 :: (v.2 ++ [0])
  | maps mappings => encode (mappings.flatMap fun m => m.line ++ ['\n'])
  | other _ content => content

/-- No NUL is in an argument or a variable, and no `=` in the name of one. -/
def Ok : Payload → Prop
  | cmdLine args => args ≠ [] ∧ ∀ arg ∈ args, 0 ∉ arg
  | environ vars => ∀ v ∈ vars, 0 ∉ v.1 ∧ 0 ∉ v.2 ∧ '='.toUInt8 ∉ v.1
  | maps _ => True
  | other type _ => type ∉ [linuxCmdLine, linuxEnviron, linuxMaps]

end Payload

/-- An entry of the directory: the type of the stream, its size, and where it is in the file. -/
structure Entry (data : Bytes) (entry : Nat) (s : Payload) : Prop where
  inside : entry + 12 ≤ data.length
  type : Struct.number (readAt data entry 4) = s.type
  content : readAt data (Struct.number (readAt data (entry + 8) 4)) (Struct.number (readAt data (entry + 4) 4)) =
    s.content

/-- The directory of a dump has the streams in this order. They are anywhere in the file. -/
def Located (data : Bytes) (directory : Nat) (streams : List Payload) : Prop :=
  ∀ i s, streams[i]? = some s → Entry data (directory + i * 12) s

/-! ## What is in a stream -/

section
variable {α : Type} [BEq α] [LawfulBEq α]

/-- Pieces with the separator after each of them. -/
theorem splitOn_flatMap {sep : α} {pieces : List (List α)} (h : ∀ p ∈ pieces, sep ∉ p) :
    (pieces.flatMap (· ++ [sep])).splitOn sep = pieces ++ [[]] := by
  induction pieces with
  | nil => exact List.splitOn_nil sep
  | cons p pieces ih =>
    rw [List.flatMap_cons, List.append_assoc, List.singleton_append,
      List.splitOn_append_cons_self_of_not_mem (h p List.mem_cons_self),
      ih fun q hq => h q (List.mem_cons_of_mem _ hq), List.cons_append]

end

theorem cmdline_content {args : List Bytes} (h : (Payload.cmdLine args).Ok) :
    cmdline (Payload.cmdLine args).content = .arr (args.map fun arg => .str (text arg)) := by
  rw [cmdline, Payload.content, List.splitOn_intercalate 0 h.2 h.1]

/-- Later variables win. -/
theorem environ_content {vars : List (Bytes × Bytes)} (h : (Payload.environ vars).Ok) :
    environ (Payload.environ vars).content = vars.foldl (fun env v => env.insert (text v.1) (text v.2)) .empty := by
  have hpieces : (Payload.environ vars).content =
      (vars.map fun v => v.1 ++ '='.toUInt8 :: v.2).flatMap (· ++ [0]) := by
    simp [Payload.content, List.flatMap_map]
  have hnul : ∀ p ∈ vars.map fun v => v.1 ++ '='.toUInt8 :: v.2, (0 : UInt8) ∉ p := by
    intro p hp
    obtain ⟨v, hv, rfl⟩ := List.mem_map.1 hp
    obtain ⟨hkey, hvalue, -⟩ := h v hv
    simp only [List.mem_append, List.mem_cons, not_or]
    exact ⟨hkey, by decide, hvalue⟩
  have hvars : ∀ (vars : List (Bytes × Bytes)) (env : Dict String String), (∀ v ∈ vars, '='.toUInt8 ∉ v.1) →
      (vars.map fun v => v.1 ++ '='.toUInt8 :: v.2).foldl envvar env =
        vars.foldl (fun env v => env.insert (text v.1) (text v.2)) env := by
    intro vars
    induction vars with
    | nil => exact fun _ _ => rfl
    | cons v vars ih =>
      intro env hv
      have hkey := hv v List.mem_cons_self
      have hvar : envvar env (v.1 ++ '='.toUInt8 :: v.2) = env.insert (text v.1) (text v.2) := by
        unfold envvar
        rw [if_neg (by simp), Words.dropWhile_ne_append hkey, Words.takeWhile_ne_append hkey]
      rw [List.map_cons, List.foldl_cons, hvar, ih _ fun w hw => hv w (List.mem_cons_of_mem _ hw), List.foldl_cons]
  unfold environ
  rw [hpieces, splitOn_flatMap hnul, List.foldl_append, hvars vars .empty fun v hv => (h v hv).2.2]
  rfl

theorem splitMax_field (n : Nat) (f : Field) (rest : Text) :
    splitMax (n + 1) (f.text ++ ' ' :: rest) = f.text :: splitMax n rest := by
  obtain ⟨c, cs, hf⟩ := List.exists_cons_of_ne_nil f.ne_nil
  have hfree : ∀ a ∈ f.text, (!Str.isSpace a) = true := fun a ha => by rw [f.free a ha]; rfl
  have hstart : (f.text ++ ' ' :: rest).dropWhile Str.isSpace = f.text ++ ' ' :: rest := by
    have hc : Str.isSpace c = false := f.free c (by rw [hf]; exact List.mem_cons_self)
    rw [hf, List.cons_append, List.dropWhile_cons_of_neg (by simp [hc])]
  have hgap : ∀ n, splitMax n (' ' :: rest) = splitMax n rest := by
    intro n
    cases n <;> (unfold splitMax; rw [List.dropWhile_cons_of_pos rfl])
  have htake : (f.text ++ ' ' :: rest).takeWhile (fun c => !Str.isSpace c) = f.text := by
    rw [List.takeWhile_append_of_pos hfree, List.takeWhile_cons_of_neg (by decide), List.append_nil]
  have hdrop : (f.text ++ ' ' :: rest).dropWhile (fun c => !Str.isSpace c) = ' ' :: rest := by
    rw [List.dropWhile_append_of_pos hfree, List.dropWhile_cons_of_neg (by decide)]
  rw [← hgap n]
  rw [hf, List.cons_append] at hstart htake hdrop ⊢
  rw [splitMax, hstart]
  simp only [htake, hdrop]

theorem splitMax_fields (fields : List Field) (n : Nat) (rest : Text) :
    splitMax (fields.length + n) (fields.flatMap (fun f => f.text ++ [' ']) ++ rest) =
      fields.map Words.Word.text ++ splitMax n rest := by
  induction fields with
  | nil => simp
  | cons f fields ih =>
    have hn : (f :: fields).length + n = fields.length + n + 1 := by
      rw [List.length_cons]
      omega
    rw [List.flatMap_cons, List.append_assoc, List.append_assoc, List.singleton_append, hn, splitMax_field, ih]
    rfl

/-- The sixth piece is the file, with the spaces that are in it. -/
theorem splitMax_line (m : Mapping) : (splitMax 5 m.line)[5]? = m.file := by
  have hspaces : ∀ rest : Text, (List.replicate m.padding ' ' ++ rest).dropWhile Str.isSpace =
      rest.dropWhile Str.isSpace := fun rest =>
    List.dropWhile_append_of_pos fun a ha => by rw [List.eq_of_mem_replicate ha]; rfl
  have hfields := splitMax_fields m.fields 0 (List.replicate m.padding ' ' ++ m.file.getD [])
  rw [m.five] at hfields
  rw [Mapping.line, hfields, List.getElem?_append_right (by simp [m.five]), List.length_map, m.five, splitMax, hspaces]
  cases hfile : m.file with
  | none => rfl
  | some path =>
    obtain ⟨-, c, rest, rfl, hc⟩ := m.file_ok path hfile
    rw [Option.getD_some, List.dropWhile_cons_of_neg (by simp [hc])]
    rfl

theorem newline_not_mem_line (m : Mapping) : '\n' ∉ m.line := by
  unfold Mapping.line
  simp only [List.mem_append, List.mem_flatMap, List.mem_replicate, List.mem_singleton, not_or, not_exists, not_and]
  refine ⟨fun f _ => ⟨fun hm => ?_, by decide⟩, fun _ => by decide, ?_⟩
  · have hfree := f.free _ hm
    exact absurd hfree (by decide)
  · cases hfile : m.file with
    | none => simp
    | some path => exact (m.file_ok path hfile).1

theorem mappedFiles_content (mappings : List Mapping) :
    mappedFiles (decodeReplace (Payload.maps mappings).content) = mappings.filterMap Mapping.file := by
  have hlines : (mappings.flatMap fun m => m.line ++ ['\n']) = (mappings.map Mapping.line).flatMap (· ++ ['\n']) := by
    simp [List.flatMap_map]
  have hnewline : ∀ l ∈ mappings.map Mapping.line, '\n' ∉ l := by
    intro l hl
    obtain ⟨m, -, rfl⟩ := List.mem_map.1 hl
    exact newline_not_mem_line m
  unfold mappedFiles Payload.content
  rw [decodeReplace_encode, hlines, splitOn_flatMap hnewline, List.filterMap_append, List.filterMap_map]
  have hfile : ((fun line => (splitMax 5 line)[5]?) ∘ Mapping.line) = Mapping.file := funext splitMax_line
  rw [hfile]
  exact List.append_nil _

/-! ## The directory -/

/-- The library reads two numbers of four bytes. -/
def Tools.Locates (tools : Tools) : Prop :=
  ∀ bytes, 8 ≤ bytes.length →
    tools.location bytes = (Struct.number (readAt bytes 0 4), Struct.number (readAt bytes 4 4))

section
variable {tools : Tools} {data : Bytes} {directory : Nat} {streams : List Payload}

theorem readAt_drop (data : Bytes) (n offset size : Nat) :
    readAt (data.drop n) offset size = readAt data (n + offset) size := by
  rw [readAt, readAt, List.drop_drop]

/-- A stream is found by its place in the directory. -/
theorem Entry.read {entry : Nat} {s : Payload} (h : Entry data entry s) (hlocates : tools.Locates) :
    readAt data (tools.location (data.drop (entry + 4))).2 (tools.location (data.drop (entry + 4))).1 = s.content := by
  have hlength : 8 ≤ (data.drop (entry + 4)).length := by
    have hinside := h.inside
    rw [List.length_drop]
    omega
  rw [hlocates _ hlength, readAt_drop, readAt_drop]
  exact h.content

/-- A loop over the places of a list is one over the list. -/
theorem foldlM_range {ε σ α : Type} {f : σ → Nat → Except ε σ} {g : σ → α → Except ε σ} {l : List α}
    (h : ∀ i a, l[i]? = some a → ∀ s, f s i = g s a) (s : σ) :
    (List.range l.length).foldlM f s = l.foldlM g s := by
  induction l using List.reverseRecOn generalizing s with
  | nil => rfl
  | append_singleton l a ih =>
    have hlast : ∀ s, f s l.length = g s a := h l.length a (by simp)
    have hinit : ∀ i b, l[i]? = some b → ∀ s, f s i = g s b := by
      intro i b hb
      obtain ⟨hi, -⟩ := List.getElem?_eq_some_iff.1 hb
      exact h i b (by rw [List.getElem?_append_left hi, hb])
    rw [List.length_append, List.length_singleton, List.range_succ, List.foldlM_append, List.foldlM_append, ih hinit]
    simp only [List.foldlM_cons, List.foldlM_nil, hlast]

theorem readStreams_located (hlocates : tools.Locates) (hdata : Located data directory streams)
    (extra : List (String × Json)) :
    readStreams tools data ⟨streams.length, directory⟩ extra =
      streams.foldlM (fun extra s => readStream tools extra s.type s.content) extra := by
  refine foldlM_range (fun i s hs extra => ?_) extra
  have hentry := hdata i s hs
  dsimp only
  rw [hentry.type, hentry.read hlocates]

end

/-! ## What is taken of a dump -/

section
variable (owner : Text → Option Packages.Package)

/-- What a stream adds to the event, under which key. -/
def taken : Payload → Option (String × Json)
  | .cmdLine args => some ("cmdline", .arr (args.map fun arg => .str (text arg)))
  | .environ vars =>
    if vars = [] then none
    else
      let env := vars.foldl (fun env v => env.insert (text v.1) (text v.2)) .empty
      some ("environ", environJson (sanitizeEnviron env))
  | .maps mappings =>
    let packages := Packages.owners owner (mappings.filterMap Mapping.file)
    if packages.items = [] then none else some ("packages", packagesJson packages)
  | .other _ _ => none

variable {owner} {tools : Tools}

theorem readStream_payload
    (hpacman : ∀ batch, batch.length ≤ 1024 → tools.pacman batch = .ok (Packages.output owner batch))
    {s : Payload} (hs : s.Ok) (extra : List (String × Json)) :
    readStream tools extra s.type s.content = .ok ((taken owner s).elim extra fun p => Assoc.set p.1 p.2 extra) := by
  cases s with
  | cmdLine args =>
    have hcmdline := cmdline_content hs
    simp only [readStream, Payload.type, if_true, hcmdline, taken, Option.elim_some]
  | environ vars =>
    have henviron := environ_content hs
    have hne : linuxEnviron ≠ linuxCmdLine := by decide
    have hempty : (Payload.environ vars).content = [] ↔ vars = [] := by
      cases vars <;> simp [Payload.content]
    simp only [readStream, Payload.type, if_neg hne, if_true, henviron, hempty, taken]
    split <;> rfl
  | maps mappings =>
    have hne : linuxMaps ≠ linuxCmdLine ∧ linuxMaps ≠ linuxEnviron := by decide
    have hnewline : ∀ path ∈ mappings.filterMap Mapping.file, '\n' ∉ path := by
      intro path hp
      obtain ⟨m, -, hm⟩ := List.mem_filterMap.1 hp
      exact (m.file_ok path hm).1
    simp only [readStream, Payload.type, if_neg hne.1, if_neg hne.2, if_true, mappedFiles_content,
      Packages.getPathsPackages_eq hnewline hpacman, Submit.ok_bind, taken]
    split <;> rfl
  | other type content =>
    have htype : type ≠ linuxCmdLine ∧ type ≠ linuxEnviron ∧ type ≠ linuxMaps := by simpa [Payload.Ok] using hs
    simp only [readStream, Payload.type, htype.1, htype.2.1, htype.2.2, if_false, taken, Option.elim_none]

/-- However many streams there are, in whatever order, and wherever they are in the file, `submit` finds each of them
through the directory and takes its content as it was put there: the arguments, the variables without what tells the
user, and the packages of the files. -/
theorem submit_located (hlocates : tools.Locates)
    (hpacman : ∀ batch, batch.length ≤ 1024 → tools.pacman batch = .ok (Packages.output owner batch)) {data : Bytes}
    {directory : Nat} {streams : List Payload} (hok : ∀ s ∈ streams, s.Ok)
    (hparse : tools.parse data = some ⟨streams.length, directory⟩) (hdata : Located data directory streams)
    (new : Event) (fname : List Char) (xattr : String → Option Bytes) :
    submit tools new fname xattr (some data) =
      .ok (.send { new with
        appid := (nameAppid fname).elim new.appid .num
        tags := setTags xattr new.tags
        extra := (streams.filterMap (taken owner)).foldl (fun extra p => Assoc.set p.1 p.2 extra) new.extra }) := by
  have hfold : ∀ (streams : List Payload) (extra : List (String × Json)), (∀ s ∈ streams, s.Ok) →
      streams.foldlM (fun extra s => readStream tools extra s.type s.content) extra =
        .ok ((streams.filterMap (taken owner)).foldl (fun extra p => Assoc.set p.1 p.2 extra) extra) := by
    intro streams
    induction streams with
    | nil => exact fun _ _ => rfl
    | cons s streams ih =>
      intro extra h
      rw [List.foldlM_cons, readStream_payload hpacman (h s List.mem_cons_self), Submit.ok_bind,
        ih _ fun t ht => h t (List.mem_cons_of_mem _ ht), List.filterMap_cons]
      cases taken owner s <;> rfl
  unfold submit
  simp only [hparse]
  rw [readStreams_located hlocates hdata, hfold streams _ hok]
  rfl

end

/-! ## The dump of a game -/

def gameMapping : Mapping where
  fields := [⟨"7f0000000000-7f0000001000".toList, by decide, Words.forall_of_all (by decide)⟩,
    ⟨"r-xp".toList, by decide, Words.forall_of_all (by decide)⟩,
    ⟨"00000000".toList, by decide, Words.forall_of_all (by decide)⟩,
    ⟨"00:19".toList, by decide, Words.forall_of_all (by decide)⟩,
    ⟨"42".toList, by decide, Words.forall_of_all (by decide)⟩]
  five := rfl
  padding := 3
  file := some "/usr/lib/libc.so.6".toList
  file_ok := by
    rintro path ⟨⟩
    exact ⟨by decide, '/', _, rfl, rfl⟩

def gameStreams : List Payload :=
  [.other 3 [1, 2], .environ [(encode "HOME".toList, encode "/home/gordon".toList),
      (encode "USER".toList, encode "gordon".toList), (encode "PWD".toList, encode "/home/gordon/Downloads".toList)],
    .cmdLine [encode "game".toList, encode "-x".toList], .maps [gameMapping]]

/-- The entry of a stream that begins at `rva`. -/
def entryAt (s : Payload) (rva : Nat) : Bytes :=
  Struct.littleEndian 4 s.type ++ Struct.littleEndian 4 s.content.length ++ Struct.littleEndian 4 rva

/-- A header of 32 bytes, the streams with gaps between them and in another order, and then the directory. -/
def gameDump : Bytes :=
  encode "MDMP".toList ++ Struct.littleEndian 4 42899 ++ Struct.littleEndian 4 4 ++ Struct.littleEndian 4 176 ++
    List.replicate 19 (0 : UInt8) ++ (gameStreams.reverse.flatMap fun s => s.content ++ [255]) ++
    ((gameStreams.zip [173, 115, 107, 35]).flatMap fun p => entryAt p.1 p.2)

/-- The library, as far as it reads these. -/
def gameTools : Tools where
  parse data :=
    if data.take 4 = encode "MDMP".toList then
      some ⟨Struct.number (readAt data 8 4), Struct.number (readAt data 12 4)⟩
    else none
  location data := (Struct.number (readAt data 0 4), Struct.number (readAt data 4 4))
  pacman batch := .ok (Packages.output Packages.glibcOwns batch)

theorem locates_gameTools : gameTools.Locates := fun _ _ => rfl

theorem located_gameDump : Located gameDump 176 gameStreams := by
  intro i s hs
  rcases i with _ | _ | _ | _ | i
  · cases hs
    exact ⟨by decide +kernel, by decide +kernel, by decide +kernel⟩
  · cases hs
    exact ⟨by decide +kernel, by decide +kernel, by decide +kernel⟩
  · cases hs
    exact ⟨by decide +kernel, by decide +kernel, by decide +kernel⟩
  · cases hs
    exact ⟨by decide +kernel, by decide +kernel, by decide +kernel⟩
  · cases hs

theorem submit_game : ∃ event, submit gameTools { osBuild := none, version := none } "/pending/1-game-2-456.dmp".toList
    (fun _ => none) (some gameDump) = .ok (.send event) ∧ event.appid = .num 456 ∧
    event.extra = [("environ", .obj [("PWD", .str "${HOME}/Downloads")]), ("cmdline", .arr [.str "game", .str "-x"]),
      ("packages", .obj [("glibc", .str "2.39-1")])] := by
  have hok : ∀ s ∈ gameStreams, s.Ok := by
    intro s hs
    simp only [gameStreams, List.mem_cons, List.not_mem_nil, or_false] at hs
    rcases hs with rfl | rfl | rfl | rfl
    · exact (by decide : 3 ∉ [linuxCmdLine, linuxEnviron, linuxMaps])
    · unfold Payload.Ok
      decide +kernel
    · exact ⟨by decide, by decide +kernel⟩
    · trivial
  have hparse : gameTools.parse gameDump = some ⟨4, 176⟩ := by
    have hmagic : gameDump.take 4 = encode "MDMP".toList := by decide +kernel
    have hnumber : Struct.number (readAt gameDump 8 4) = 4 := by decide +kernel
    have hrva : Struct.number (readAt gameDump 12 4) = 176 := by decide +kernel
    simp only [gameTools, hmagic, hnumber, hrva, if_true]
  have hpacman : ∀ batch, batch.length ≤ 1024 →
      gameTools.pacman batch = .ok (Packages.output Packages.glibcOwns batch) := fun _ _ => rfl
  refine ⟨_, submit_located locates_gameTools hpacman hok hparse located_gameDump _ _ _, ?_, ?_⟩
  · decide +kernel
  · decide +kernel

end LogSubmitter.Minidump
