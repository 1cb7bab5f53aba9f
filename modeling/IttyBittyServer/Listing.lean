import IttyBittyServer.Redirect

/-! The page that lists a directory, and where its links lead. -/
namespace IttyBittyServer.Listing
open Sockets Text
open CheckAndSend (strDecode fileName forbidden sscanf scanToken Contained)
open Response (snprintf)
open Answers (Files Conn Effect link listing listEntries listingHead listingFoot lookUp sendError sendResponse)
open FileService (Accepted)
open Redirect (Literal literalDecodes decodeShortens)

def tag : List UInt8 := ascii "<a href="

def hrefs : List UInt8 → List (List UInt8)
  | [] => []
  | c::rest =>
    if (tag ++ [34]).isPrefixOf (c::rest) then ((c::rest).drop (tag.length + 1)).takeWhile (· ≠ 34)::hrefs rest
    else hrefs rest

/- An entry that has the server's name in it gets no link. -/
def linked (name : List UInt8) : Bool := (strstr name (ascii "Squinn!")).isNone

def entry (name : List UInt8) : List UInt8 := if linked name then link name else name

structure Clean (name : List UInt8) : Prop where
  quote : 34 ∉ name
  tag : ¬ tag <:+ name

section
variable {name s t : List UInt8}

theorem entriesText (contents : List UInt8) (size : Int) (dl : List (List UInt8)) :
    (listEntries contents size dl).1 = contents ++ dl.flatMap entry := by
  induction dl generalizing contents size with
  | nil => simp [listEntries]
  | cons name dl ih =>
    have whole : ∀ toAssign : List UInt8, toAssign.take (contents.length + toAssign.length) = toAssign := fun _ =>
      List.take_of_length_le (Nat.le_add_left _ _)
    have appended : Answers.appendStr (some contents) name = contents ++ entry name := by
      unfold Answers.appendStr entry linked
      cases strstr name (ascii "Squinn!") <;> simp [whole]
    rw [listEntries,ih,appended,List.flatMap_cons,List.append_assoc]

theorem listingText (file : List UInt8) (dl : List (List UInt8)) :
    (listing file dl).1 = listingHead file ++ (dl.flatMap entry ++ listingFoot) := by
  have parts : (listing file dl).1 = Answers.appendStr (some (listEntries (Answers.appendStr none (listingHead file))
      (listingHead file).length dl).1) listingFoot := rfl
  rw [parts,Answers.footAppended,entriesText,List.append_assoc]
  rfl

theorem linkText (name : List UInt8) :
    link name = tag ++ 34::(name ++ 34::(62::(name ++ ascii "</a><br />"))) := by
  have parts : ascii "<a href=\"" = tag ++ [34] ∧ ascii "\">" = [34,62] ∧
      ascii "</a><br />\n" = ascii "</a><br />" ++ [10] := by decide
  have sizes : (ascii "<a href=\"\"></a><br />\n").length = 22 ∧ tag.length = 8 ∧ (ascii "</a><br />").length = 10 := by
    decide
  unfold link snprintf
  rw [parts.1,parts.2.1,parts.2.2,sizes.1]
  have whole : tag ++ [34] ++ name ++ [34,62] ++ name ++ (ascii "</a><br />" ++ [10]) =
      (tag ++ 34::(name ++ 34::(62::(name ++ ascii "</a><br />")))) ++ [10] := by simp
  rw [whole,List.take_append_of_le_length]
  · refine List.take_of_length_le ?_
    simp only [List.length_append,List.length_cons,sizes]
    omega
  · simp only [List.length_append,List.length_cons,sizes]
    omega

theorem tagStarts : tag = 60::tag.tail ∧ 34 ∉ tag := by decide

theorem hrefsPlain (plain : 34 ∉ s) : hrefs s = [] := by
  induction s with
  | nil => rfl
  | cons c s ih =>
    have away : ¬ (tag ++ [34]).isPrefixOf (c::s) = true := fun starts => by
      obtain ⟨_,whole⟩ := List.isPrefixOf_iff_prefix.mp starts
      refine plain ?_
      rw [← whole]
      simp
    rw [hrefs,if_neg away]
    exact ih fun mem => plain (List.mem_cons_of_mem c mem)

theorem hrefsQuote (plain : 34 ∉ s) (t : List UInt8) :
    hrefs (s ++ 34::t) = (if tag <:+ s then [t.takeWhile (· ≠ 34)] else []) ++ hrefs t := by
  induction s with
  | nil =>
    have other : ¬ (tag ++ [34]).isPrefixOf (34::t) = true := by
      intro starts
      have heads := List.isPrefixOf_iff_prefix.mp starts
      rw [tagStarts.1] at heads
      exact absurd (List.cons_prefix_cons.mp heads).1 (by decide)
    have none_ : ¬ tag <:+ [] := by decide
    rw [List.nil_append,hrefs,if_neg other,if_neg none_,List.nil_append]
  | cons c s ih =>
    have rest := ih fun mem => plain (List.mem_cons_of_mem c mem)
    have opens : (tag ++ [34]).isPrefixOf (c::s ++ 34::t) = true ↔ c::s = tag := by
      rw [List.isPrefixOf_iff_prefix]
      constructor
      · rintro ⟨after,whole⟩
        rw [List.append_assoc] at whole
        exact (splitsOnce tagStarts.2 plain whole).symm
      · intro same
        rw [same]
        exact ⟨t,by simp⟩
    rw [List.cons_append,hrefs,← List.cons_append]
    by_cases same : c::s = tag
    · have shorter : ¬ tag <:+ s := fun suffix => by
        have size := suffix.length_le
        rw [← same,List.length_cons] at size
        exact absurd size (Nat.not_succ_le_self _)
      have behind : (tag ++ 34::t).drop (tag.length + 1) = t := by
        rw [List.drop_append]
        simp
      rw [if_neg shorter,List.nil_append] at rest
      rw [if_pos (opens.mpr same),if_pos (by rw [same]),rest,same,behind]
      rfl
    · have suffix : tag <:+ c::s ↔ tag <:+ s := by
        rw [List.suffix_cons_iff]
        exact or_iff_right fun whole => same whole.symm
      rw [if_neg fun starts => same (opens.mp starts),rest]
      simp only [suffix]

def serverUrl : List UInt8 := ascii "http://www.magsolweb.net"

theorem entriesLinks {dl : List (List UInt8)} (plain : 34 ∉ s) (clean : ∀ name ∈ dl, Clean name) :
    hrefs (s ++ (dl.flatMap entry ++ listingFoot)) = dl.filter linked ++ [serverUrl] := by
  induction dl generalizing s with
  | nil =>
    have foot : listingFoot = ascii "</pre>\n<hr /><address>" ++ tag ++
        34::(serverUrl ++ 34::ascii ">Squinn!</a></address>\n</body></html>\n") := by decide +kernel
    have away : 34 ∉ ascii "</pre>\n<hr /><address>" ∧ 34 ∉ serverUrl ∧ ¬ tag <:+ serverUrl ∧
        34 ∉ ascii ">Squinn!</a></address>\n</body></html>\n" := by decide
    have front : 34 ∉ s ++ (ascii "</pre>\n<hr /><address>" ++ tag) := by
      simp only [List.mem_append,not_or]
      exact ⟨plain,away.1,tagStarts.2⟩
    have opens : tag <:+ s ++ (ascii "</pre>\n<hr /><address>" ++ tag) := by
      rw [← List.append_assoc]
      exact List.suffix_append _ _
    have target : (serverUrl ++ 34::ascii ">Squinn!</a></address>\n</body></html>\n").takeWhile (· ≠ 34) = serverUrl :=
      (wordEnds _ _ 34).trans (wordExact away.2.1)
    rw [List.flatMap_nil,List.nil_append,foot,← List.append_assoc,hrefsQuote front,if_pos opens,target,
      hrefsQuote away.2.1,if_neg away.2.2.1,hrefsPlain away.2.2.2]
    rfl
  | cons name dl ih =>
    have here := clean name List.mem_cons_self
    have later : ∀ other ∈ dl, Clean other := fun other mem => clean other (List.mem_cons_of_mem name mem)
    rw [List.flatMap_cons,List.filter_cons,entry]
    cases named : linked name with
    | false =>
      have front : 34 ∉ s ++ name := by
        simp only [List.mem_append,not_or]
        exact ⟨plain,here.quote⟩
      have rest := ih front later
      simpa using rest
    | true =>
      have front : 34 ∉ s ++ tag := by
        simp only [List.mem_append,not_or]
        exact ⟨plain,tagStarts.2⟩
      have back : 34 ∉ 62::(name ++ ascii "</a><br />") := by
        have constant : 34 ∉ ascii "</a><br />" := by decide
        simp [here.quote,constant]
      have parts : s ++ (link name ++ dl.flatMap entry ++ listingFoot) = (s ++ tag) ++ 34::(name ++
          34::(62::(name ++ ascii "</a><br />") ++ (dl.flatMap entry ++ listingFoot))) := by
        rw [linkText]
        simp
      have target : ∀ t : List UInt8, (name ++ 34::t).takeWhile (· ≠ 34) = name := fun t =>
        (wordEnds name t 34).trans (wordExact here.quote)
      rw [if_pos rfl,if_pos rfl,parts,hrefsQuote front,if_pos (List.suffix_append s tag),target,hrefsQuote here.quote,
        if_neg here.tag,ih back later]
      rfl

theorem listingHeadText {file : List UInt8} (short : file.length ≤ 4950) : listingHead file =
    (ascii "<html><head><title>Index of " ++ file ++ ascii "</title></head>\n<body bgcolor=") ++ 34::(ascii "#99CC99" ++
      34::(ascii "><h3>Index of " ++ file ++ ascii "</h3>\n<pre>\n")) := by
  have middle : ascii "</title></head>\n<body bgcolor=\"#99CC99\"><h3>Index of " =
      ascii "</title></head>\n<body bgcolor=" ++ 34::(ascii "#99CC99" ++ 34::ascii "><h3>Index of ") := by decide
  have sizes : (ascii "<html><head><title>Index of ").length = 28 ∧
      (ascii "</title></head>\n<body bgcolor=\"#99CC99\"><h3>Index of ").length = 53 ∧
      (ascii "</h3>\n<pre>\n").length = 12 := by decide
  have whole : listingHead file = ascii "<html><head><title>Index of " ++ file ++
      ascii "</title></head>\n<body bgcolor=\"#99CC99\"><h3>Index of " ++ file ++ ascii "</h3>\n<pre>\n" := by
    refine List.take_of_length_le ?_
    simp only [List.length_append,sizes]
    omega
  rw [whole,middle]
  simp

theorem listingLinks {file : List UInt8} {dl : List (List UInt8)} (short : file.length ≤ 4950) (quote : 34 ∉ file)
    (clean : ∀ name ∈ dl, Clean name) : hrefs (listing file dl).1 = dl.filter linked ++ [serverUrl] := by
  have away : 34 ∉ ascii "<html><head><title>Index of " ∧ 34 ∉ ascii "</title></head>\n<body bgcolor=" ∧
      34 ∉ ascii "#99CC99" ∧ ¬ tag <:+ ascii "#99CC99" ∧ 34 ∉ ascii "><h3>Index of " ∧
      34 ∉ ascii "</h3>\n<pre>\n" := by decide
  have front : 34 ∉ ascii "<html><head><title>Index of " ++ file ++ ascii "</title></head>\n<body bgcolor=" := by
    simp [away.1,quote,away.2.1]
  have back : 34 ∉ ascii "><h3>Index of " ++ file ++ ascii "</h3>\n<pre>\n" := by
    simp [away.2.2.2.2.1,quote,away.2.2.2.2.2]
  have closed : ¬ tag <:+ ascii "<html><head><title>Index of " ++ file ++ ascii "</title></head>\n<body bgcolor=" := by
    intro opens
    have last := List.suffix_of_suffix_length_le opens (List.suffix_append _ _) (by decide)
    exact absurd last (by decide)
  have parts : ∀ head colour foot rest : List UInt8, head ++ 34::(colour ++ 34::foot) ++ rest =
      head ++ 34::(colour ++ 34::(foot ++ rest)) := by simp
  rw [listingText,listingHeadText short,parts,hrefsQuote front,if_neg closed,hrefsQuote away.2.2.1,if_neg away.2.2.2.1,
    entriesLinks back clean]
  rfl

end

structure Folder (dir : List UInt8) : Prop where
  ends : dir = [] ∨ dir.getLast? = some 47
  contained : Contained dir
  literal : Literal dir
  noNul : 0 ∉ dir
  blank : 32 ∉ dir

structure IsEntry (name : List UInt8) : Prop where
  some : name ≠ []
  slash : 47 ∉ name
  noNul : 0 ∉ name

def follow (dir name : List UInt8) : Conn := .connection (some (Redirect.request (47::(dir ++ name))))

section
variable {before literal dir name path s t : List UInt8}

theorem stepPlain {c : UInt8} (plain : ∀ a b rest, s = a::b::rest → ¬ (c = 37 ∧ isxdigit a ∧ isxdigit b)) :
    strDecode (c::s) = c::strDecode s := by
  rcases s with _ | ⟨a,_ | ⟨b,s⟩⟩
  · rfl
  · rfl
  · rw [strDecode,if_neg (plain a b s rfl)]

/- No escape goes over a slash. -/
theorem slashDecodes : strDecode (s ++ 47::t) = strDecode s ++ 47::strDecode t := by
  have other : ¬ isxdigit 47 = true := by decide
  fun_induction strDecode s with
  | case1 c a b rest hex ih => rw [List.cons_append,List.cons_append,List.cons_append,strDecode,if_pos hex,ih]; rfl
  | case2 c a b rest plain ih =>
    simp only [List.cons_append] at ih ⊢
    rw [strDecode,if_neg plain,ih]
  | case3 c rest short ih =>
    rw [List.cons_append,List.cons_append,← ih]
    refine stepPlain fun x y more same => ?_
    rcases rest with _ | ⟨a,_ | ⟨b,rest⟩⟩
    · exact fun hex => other ((List.cons.inj same).1 ▸ hex.2.1)
    · exact fun hex => other ((List.cons.inj (List.cons.inj same).2).1 ▸ hex.2.2)
    · exact (short a b rest rfl).elim
  | case4 => exact stepPlain fun _ _ _ _ hex => absurd hex.1 (by decide)

theorem entryDecodes (folder : Folder dir) : strDecode (dir ++ name) = dir ++ strDecode name := by
  rcases folder.ends with rfl | slash
  · rfl
  · obtain ⟨up,rfl⟩ := List.getLast?_eq_some_iff.mp slash
    have kept := literalDecodes folder.literal
    rw [slashDecodes] at kept
    rw [List.append_assoc,List.singleton_append,slashDecodes,List.append_cancel_right kept]
    simp

theorem entryNoNul (folder : Folder dir) (entry : IsEntry name) : 0 ∉ dir ++ name := by
  simp [folder.noNul,entry.noNul]

theorem entryNotRoot (entry : IsEntry name) : dir ++ name ≠ ascii "./" := fun same => by
  obtain ⟨front,c,rfl⟩ := (List.eq_nil_or_concat' name).resolve_left entry.some
  have parts : dir ++ front ++ [c] = [46] ++ [47] := by
    rw [List.append_assoc,same]
    decide
  have last : c = 47 := by simpa using congrArg List.getLast? parts
  exact entry.slash (by simp [last])

theorem entryNamed (entry : IsEntry name) : fileName path = dir ++ name ↔ RequestMemory.name path = dir ++ name := by
  unfold fileName RequestMemory.name
  dsimp only
  split
  · rename_i empty
    rw [empty]
    exact iff_of_false (entryNotRoot entry).symm fun same => entry.some (List.append_eq_nil_iff.mp same.symm).2
  · rfl

theorem entryLiteral (folder : Folder dir) (entry : IsEntry name) :
    RequestMemory.name (47::(dir ++ name)) = dir ++ name ↔ Literal name := by
  constructor
  · intro named
    refine (decodeShortens name).elim And.right fun less => ?_
    have ended := RequestMemory.nameLength (47::(dir ++ name))
    rw [named,List.tail_cons,entryDecodes folder,List.length_append,List.length_append] at ended
    omega
  · intro literal
    rw [RequestMemory.name,List.tail_cons,entryDecodes folder,literalDecodes literal]
    exact cstringExact (entryNoNul folder entry)

theorem entryContained (folder : Folder dir) (entry : IsEntry name) : Contained (dir ++ name) ↔ name ≠ ascii ".." := by
  have alone : name.splitOn 47 = [name] := List.splitOn_eq_singleton entry.slash
  have first : name.head? ≠ some 47 := fun slash => entry.slash (List.mem_of_head? slash)
  obtain ⟨relative,inside⟩ := folder.contained
  rcases folder.ends with rfl | slash
  · simp [Contained,alone,first,eq_comm]
  · obtain ⟨up,rfl⟩ := List.getLast?_eq_some_iff.mp slash
    have parts : up ++ [47] ++ name = up ++ 47::name := by simp
    have above : ascii ".." ∉ up.splitOn 47 := fun mem => inside (by
      rw [List.splitOn_append_cons_self]
      exact List.mem_append_left _ mem)
    have starts : (up ++ 47::name).head? ≠ some 47 := by
      cases up with
      | nil => simp at relative
      | cons c up => simpa using relative
    rw [Contained,parts,List.splitOn_append_cons_self,alone,and_iff_right starts]
    simp [above,eq_comm]

theorem linkScanned (noNul : 0 ∉ s) (plain : 32 ∉ s) :
    sscanf (cstring (Redirect.request (47::s))) = some (ascii "GET",47::s,ascii "HTTP/1.0") := by
  have method : scanToken (ascii "GET" ++ 32::(47::s ++ 32::ascii "HTTP/1.0")) =
      some (ascii "GET",32::(47::s ++ 32::ascii "HTTP/1.0")) := ClientRequest.scanWord (by decide) (by decide)
  have second : scanToken (47::s ++ 32::ascii "HTTP/1.0") = some (47::s,32::ascii "HTTP/1.0") :=
    ClientRequest.scanWord (by simp) (by simpa using plain)
  have blanks : (32::(47::s ++ 32::ascii "HTTP/1.0")).dropWhile isspace = 47::s ++ 32::ascii "HTTP/1.0" := by
    simp [isspace]
  have last : scanToken ((32::ascii "HTTP/1.0").dropWhile isspace) = some (ascii "HTTP/1.0",[]) := by decide
  rw [Redirect.requestText (by simpa using noNul)]
  simp only [sscanf,method,blanks,second,last,bind,Option.bind_some]

theorem entryWhole (folder : Folder dir) (entry : IsEntry name)
    (accepted : Accepted before literal (follow dir name) (dir ++ name)) : 32 ∉ name := by
  obtain ⟨line,method,path,protocol,received,parsed,_,_,named,_⟩ := accepted
  cases received
  have noNul : 0 ∉ 47::(dir ++ name) := by simpa using entryNoNul folder entry
  have token : path = (47::(dir ++ name)).takeWhile (· ≠ 32) :=
    Redirect.pathRead noNul (by rw [ClientRequest.pathToken,parsed]; rfl)
  have decoded := CheckAndSend.strDecodeLength path.tail
  have ended := RequestMemory.nameLength path
  rw [(entryNamed entry).mp named] at ended
  intro mem
  have cut : path.tail = (dir ++ name).takeWhile (· ≠ 32) := by rw [token]; rfl
  have shorter : path.tail.length < (dir ++ name).length := by
    rw [cut]
    refine lt_of_le_of_ne (List.takeWhile_prefix _).length_le fun same => ?_
    have whole : (dir ++ name).takeWhile (· ≠ 32) = dir ++ name := (List.takeWhile_prefix _).eq_of_length same
    have blank : 32 ∈ (dir ++ name).takeWhile (· ≠ 32) := by rw [whole]; exact List.mem_append_right _ mem
    simpa using List.mem_takeWhile_imp blank
  omega

theorem entryReached (folder : Folder dir) (entry : IsEntry name) :
    Accepted before literal (follow dir name) (dir ++ name) ↔ 32 ∉ name ∧ Literal name ∧ name ≠ ascii ".." := by
  have some_ : dir ++ name ≠ [] := fun none => entry.some (List.append_eq_nil_iff.mp none).2
  have noNul := entryNoNul folder entry
  have legal : RequestMemory.name (47::(dir ++ name)) = dir ++ name →
      (forbidden (if cstring (strDecode (dir ++ name)) = [] then literal else before ++ [47]) (dir ++ name) = false ↔
        name ≠ ascii "..") := fun named => by
    have decoded : cstring (strDecode (dir ++ name)) = dir ++ name := named
    rw [decoded,if_neg some_,← Bool.not_eq_true,
      CheckAndSend.forbiddenExact some_ (.inl ⟨before,rfl⟩),not_not,entryContained folder entry]
  constructor
  · intro accepted
    have plain := entryWhole folder entry accepted
    have all : 32 ∉ dir ++ name := by simp [folder.blank,plain]
    obtain ⟨line,method,path,protocol,received,parsed,_,_,named,allowed⟩ := accepted
    cases received
    cases (linkScanned noNul all).symm.trans parsed
    have named := (entryNamed entry).mp named
    exact ⟨plain,(entryLiteral folder entry).mp named,(legal named).mp allowed⟩
  · rintro ⟨plain,literal_,other⟩
    have all : 32 ∉ dir ++ name := by simp [folder.blank,plain]
    have named := (entryLiteral folder entry).mpr literal_
    exact ⟨_,_,_,_,rfl,linkScanned noNul all,by decide,rfl,(entryNamed entry).mpr named,(legal named).mpr other⟩

theorem folderOpened (folder : Folder dir) :
    Accepted before literal (follow dir []) (if dir = [] then ascii "./" else dir) := by
  have decoded : cstring (strDecode (dir ++ [])) = dir := by
    rw [List.append_nil,literalDecodes folder.literal,cstringExact folder.noNul]
  have named : fileName (47::(dir ++ [])) = if dir = [] then ascii "./" else dir := by
    simp only [fileName,List.tail_cons,decoded]
  refine ⟨_,_,_,_,rfl,linkScanned (by simpa using folder.noNul) (by simpa using folder.blank),by decide,rfl,named,?_⟩
  rw [List.tail_cons,decoded,← Bool.not_eq_true]
  split
  · rw [CheckAndSend.forbiddenExact (by decide) (.inr rfl),not_not]
    decide
  · rw [CheckAndSend.forbiddenExact (by assumption) (.inl ⟨before,rfl⟩),not_not]
    exact folder.contained

end

section
variable {files : Files} {before literal dir : List UInt8} {dl : List (List UInt8)} {size : Nat}

/-- The page of a directory without an index links the entries in their order, but those with the
server's name in theirs, and a link leads to its entry just where the name stands in a request as it is. -/
theorem linksFollowed (folder : Folder dir) (short : dir.length ≤ 4950) (quote : 34 ∉ dir)
    (found : files.stat (if dir = [] then ascii "./" else dir) = some ⟨true,size⟩)
    (index : files.stat (snprintf 9999 ((if dir = [] then ascii "./" else dir) ++ ascii "index.html")) = none)
    (read : files.scandir (if dir = [] then ascii "./" else dir) = some dl)
    (clean : ∀ name ∈ dl, Clean name) (entries : ∀ name ∈ dl, IsEntry name) :
    ∃ page, Answers.checkAndSend files before literal (follow dir []) =
        sendResponse 200 (ascii "OK") none (ascii "text/html") page.length page false ∧
      hrefs page = dl.filter linked ++ [serverUrl] ∧
      ∀ name ∈ dl.filter linked, Accepted before literal (follow dir name) (dir ++ name) ↔
        32 ∉ name ∧ Literal name ∧ name ≠ ascii ".." := by
  obtain ⟨decoded,_,_,looks⟩ := FileService.acceptedLooks (@folderOpened before literal dir folder)
  have answered := looks files
  generalize named : (if dir = [] then ascii "./" else dir) = file at found index read answered
  have slash : file.getLast? = some 47 := by
    rw [← named]
    split
    · decide
    · exact folder.ends.resolve_left (by assumption)
  have plain : file.length ≤ 4950 ∧ 34 ∉ file := by
    rw [← named]
    split
    · decide
    · exact ⟨short,quote⟩
  refine ⟨(listing file dl).1,answered.trans ?_,listingLinks plain.1 plain.2 clean,fun name mem =>
    entryReached folder (entries name (List.mem_filter.mp mem).1)⟩
  simp only [lookUp,found,if_true,index,read]
  rw [if_neg (not_not.mpr slash),Answers.listingCounted (files.named file dl read)]
  rfl

end

def docs : Files :=
  {FileService.holding (fun name => if name = ascii "d/" then some ⟨true,0⟩
      else if name = ascii "d/a" then some ⟨false,1⟩ else none) (ascii "d/a") [65] with
    scandir := fun _ => some [ascii ".",ascii "..",ascii "a"]
    named := fun _ dl here name mem => by
      cases here
      exact (by decide : ∀ name ∈ [ascii ".",ascii "..",ascii "a"], name.length ≤ 255) name mem}

theorem linksFollowedDocs : ∃ page, Answers.checkAndSend docs [] [] (follow (ascii "d/") []) =
      sendResponse 200 (ascii "OK") none (ascii "text/html") page.length page false ∧
    hrefs page = [ascii ".",ascii "..",ascii "a",serverUrl] ∧
    Accepted [] [] (follow (ascii "d/") (ascii "a")) (ascii "d/" ++ ascii "a") := by
  have plain : ∀ s : List UInt8, 37 ∉ s → Literal s := fun s away a b _ _ inside => away (inside.subset List.mem_cons_self)
  have each : ∀ name ∈ [ascii ".",ascii "..",ascii "a"],
      34 ∉ name ∧ ¬ tag <:+ name ∧ name ≠ [] ∧ 47 ∉ name ∧ 0 ∉ name := by decide
  have all : [ascii ".",ascii "..",ascii "a"].filter linked = [ascii ".",ascii "..",ascii "a"] := by decide
  have folder : Folder (ascii "d/") := ⟨by decide,by decide,plain _ (by decide),by decide,by decide⟩
  obtain ⟨page,answered,links,leads⟩ := @linksFollowed docs [] [] (ascii "d/") [ascii ".",ascii "..",ascii "a"] 0 folder
    (by decide) (by decide) rfl (by decide) rfl (fun name mem => ⟨(each name mem).1,(each name mem).2.1⟩)
    (fun name mem =>
      ⟨(each name mem).2.2.1,(each name mem).2.2.2.1,(each name mem).2.2.2.2⟩)
  rw [all] at links leads
  exact ⟨page,answered,links,(leads (ascii "a") (by decide)).mpr ⟨by decide,plain _ (by decide),by decide⟩⟩

end IttyBittyServer.Listing
