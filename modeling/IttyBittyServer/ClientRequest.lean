import IttyBittyServer.CheckAndSend
import IttyBittyServer.Rewrite

/-! The client's two request formats, for a server it asks directly and for one it asks
through the proxy, and the file each of them names. -/
namespace IttyBittyServer.ClientRequest
open Sockets Text Header Response ProxyIteration CheckAndSend Rewrite

def proxyText (server : List UInt8) (port : Int) (file : List UInt8) : List UInt8 :=
  ascii "GET " ++ server ++ ascii ":" ++ decimal port ++
    (if file.head? = some 47 then [] else ascii "/") ++ file ++ ascii " HTTP/1.0" ++ eol ++
    ascii "Host: " ++ server.drop 7 ++ ascii ":" ++ decimal port ++ eol ++ eol

def serverText (server file : List UInt8) : List UInt8 :=
  ascii "GET /" ++ file ++ ascii " HTTP/1.0" ++ eol ++ ascii "Host: " ++ server ++ eol ++ eol

def proxyRequest (server : List UInt8) (port : Int) (file : List UInt8) : List UInt8 :=
  snprintf 19999 (proxyText server port file)

def serverRequest (server file : List UInt8) : List UInt8 := snprintf 19999 (serverText server file)

def http : List UInt8 := ascii "http://"

def pathToken (line : List UInt8) : Option (List UInt8) :=
  (sscanf (cstring line)).map fun (_,path,_) => path

def Word (s : List UInt8) : Prop := s ≠ [] ∧ 32 ∉ s ∧ Plain s

def SamePath (host : List UInt8) (port : Int) (file : List UInt8) : Prop :=
  ∃ stripped path, stripAbsURL (proxyRequest (http ++ host) port file) = some (some stripped) ∧
    pathToken stripped = some path ∧ pathToken (serverRequest host file) = some path

theorem toupperFeed {c : UInt8} (h : toupper c = 10) : c = 10 := by
  unfold toupper at h
  split at h
  · rename_i lower
    have low := UInt8.le_iff_toNat_le.mp lower.1
    have high := UInt8.le_iff_toNat_le.mp lower.2
    have := congrArg UInt8.toNat h
    rw [UInt8.toNat_sub_of_le _ _ (UInt8.le_iff_toNat_le.mpr (Nat.le_trans (by decide) low))] at this
    change 97 ≤ c.toNat at low
    change c.toNat - 32 = 10 at this
    omega
  · exact h

theorem hostFirstFeed {header front rest : List UInt8} (split : header = front ++ rest) (plain : 10 ∉ front) :
    ∀ pre post, header.map toupper = pre ++ hostField.map toupper ++ post → front.length ≤ pre.length := by
  intro pre post same
  by_contra early
  have feed : hostField.map toupper = 10::(ascii "HOST") := by decide
  have byte := congrArg (fun l => l[pre.length]?) same
  simp only [split,feed,List.append_assoc,List.getElem?_append_right (Nat.le_refl _),Nat.sub_self,
    List.map_append] at byte
  rw [List.getElem?_append_left (by rw [List.length_map]; omega)] at byte
  simp only [List.getElem?_map,List.cons_append,List.getElem?_cons_zero,Option.map_eq_some_iff] at byte
  obtain ⟨c,here,upper⟩ := byte
  exact plain (toupperFeed upper ▸ List.mem_of_getElem? here)

theorem scanWord {word rest : List UInt8} (some_ : word ≠ []) (plain : 32 ∉ word) :
    scanToken (word ++ 32::rest) = some (word,32::rest) := by
  have all : ∀ c ∈ word, (decide (c ≠ 32)) = true := fun c hc => by
    simpa using fun same : c = 32 => plain (same ▸ hc)
  simp only [scanToken,List.takeWhile_append_of_pos all,List.dropWhile_append_of_pos all]
  cases word with
  | nil => exact absurd rfl some_
  | cons c word => simp

theorem pathScanned {path rest : List UInt8} (plain : 32 ∉ path) :
    (sscanf (ascii "GET" ++ 32::(47::path ++ 32::72::rest))).map (fun (_,path,_) => path) =
      some (47::path) := by
  have method : scanToken (ascii "GET" ++ 32::(47::path ++ 32::72::rest)) =
      some (ascii "GET",32::(47::path ++ 32::72::rest)) := scanWord (by decide) (by decide)
  have second : scanToken (47::path ++ 32::72::rest) = some (47::path,32::72::rest) :=
    scanWord (by simp) (by simpa using plain)
  have blanks : (32::(47::path ++ 32::72::rest)).dropWhile isspace = 47::path ++ 32::72::rest := by
    simp [isspace]
  have last : (32::72::rest).dropWhile isspace = 72::rest := by simp [isspace]
  simp only [sscanf,method,blanks,second,last,bind,Option.bind_some]
  simp [scanToken]

def absolute (host : List UInt8) (port : Int) (file : List UInt8) : Request where
  method := ascii "GET"
  authority := host ++ ascii ":" ++ decimal port
  path := (if file.head? = some 47 then [] else ascii "/") ++ file
  version := ascii "HTTP/1.0"
  lines := ascii "Host: " ++ host ++ ascii ":" ++ decimal port ++ eol ++ eol
  front := ascii "GET http://" ++ host ++ ascii ":" ++ decimal port ++
    (if file.head? = some 47 then [] else ascii "/") ++ file ++ ascii " HTTP/1.0\r"
  back := eol

theorem absoluteHeader (host : List UInt8) (port : Int) (file : List UInt8) :
    proxyText (http ++ host) port file = (absolute host port file).header := by
  have start : ascii "GET " ++ http = ascii "GET" ++ ascii " http://" := by decide
  have version : ascii " HTTP/1.0" = 32::ascii "HTTP/1.0" := by decide
  have name : (http ++ host).drop 7 = host := List.drop_left' (by decide)
  simp only [proxyText,Request.header,absolute,name,version,← List.append_assoc,start]
  simp

theorem decimalNoBlank (n : Nat) : 32 ∉ decimal n := fun mem =>
  absurd (decimalDigits n _ mem) (by decide)

theorem absoluteWellFormed {host file : List UInt8} {port : Nat} (named : Word host) (listed : Word file)
    (fits : (proxyText (http ++ host) port file).length ≤ 19998) :
    (absolute host port file).WellFormed := by
  have number := decimalPlain port
  have slash : Plain (if file.head? = some 47 then [] else ascii "/") := by
    unfold Plain; split <;> decide
  have words : Plain (ascii "GET") ∧ Plain (ascii " http://") ∧ Plain (ascii ":") ∧
      Plain (ascii "HTTP/1.0") ∧ Plain (ascii "Host: ") ∧ Plain [32] := by unfold Plain; decide
  obtain ⟨method,url,colon,version,name,blank⟩ := words
  have authority : Plain (absolute host port file).authority := by
    simp only [absolute,plainAppend]
    exact ⟨⟨named.2.2,colon⟩,number⟩
  have path : Plain (absolute host port file).path := by
    simp only [absolute,plainAppend]
    exact ⟨slash,listed.2.2⟩
  have front : 10 ∉ (absolute host port file).front := by
    have start : 10 ∉ ascii "GET http://" ∧ 10 ∉ ascii " HTTP/1.0\r" := by decide
    simp only [absolute,List.mem_append,not_or]
    exact ⟨⟨⟨⟨⟨⟨start.1,named.2.2.2.2⟩,colon.2.2⟩,number.2.2⟩,slash.2.2⟩,listed.2.2.2.2⟩,start.2⟩
  have split : (absolute host port file).header = (absolute host port file).front ++
      (hostField ++ ascii ": " ++ (absolute host port file).authority ++ eol ++
        (absolute host port file).back) := by
    have start : ascii "GET http://" = ascii "GET" ++ ascii " http://" := by decide
    have line : ∀ tail, [32] ++ (ascii "HTTP/1.0" ++ (eol ++ (ascii "Host: " ++ tail))) =
        ascii " HTTP/1.0\r" ++ (hostField ++ (ascii ": " ++ tail)) := by
      have whole : [32] ++ ascii "HTTP/1.0" ++ eol ++ ascii "Host: " =
        ascii " HTTP/1.0\r" ++ hostField ++ ascii ": " := by decide
      intro tail
      simpa only [List.append_assoc] using congrArg (· ++ tail) whole
    simp only [Request.header,absolute,start,List.append_assoc,line]
  have noNul : 0 ∉ (absolute host port file).header := by
    have ends : 0 ∉ eol := by decide
    simp only [Request.header,List.mem_append,not_or]
    refine ⟨⟨⟨⟨⟨⟨⟨method.1,url.1⟩,authority.1⟩,path.1⟩,blank.1⟩,version.1⟩,ends⟩,?_⟩
    simp only [absolute,List.mem_append,not_or]
    exact ⟨⟨⟨⟨⟨name.1,named.2.2.1⟩,colon.1⟩,number.1⟩,ends⟩,ends⟩
  have size := fits
  rw [absoluteHeader] at size
  refine ⟨⟨split,hostFirstFeed split front,noNul,?_,?_,authority.2⟩,by simp only [absolute]; decide,
    ⟨path.2.2,version.2.2⟩,?_,?_⟩
  · simp [absolute,named.1]
  · simp only [absolute,List.mem_append,not_or]
    exact ⟨⟨named.2.1,by decide⟩,decimalNoBlank port⟩
  · rw [show blankLine = eol ++ eol from rfl]
    exact ⟨_,by simp only [Request.header,absolute,← List.append_assoc]; rfl⟩
  · have lines : (absolute host port file).lines.length = (absolute host port file).authority.length + 10 := by
      have six : (ascii "Host: ").length = 6 := by decide
      simp [absolute,six,eol]
      omega
    simp only [Request.header,List.length_append,lines] at size
    have long : (ascii " http://").length = 8 := by decide
    omega

theorem directPath {host file : List UInt8} (named : Word host) (listed : Word file)
    (fits : (serverText host file).length ≤ 19998) :
    pathToken (serverRequest host file) = some (47::file) := by
  have start : ascii "GET /" = ascii "GET" ++ [32,47] := by decide
  have version : ascii " HTTP/1.0" = 32::72::ascii "TTP/1.0" := by decide
  have noNul : 0 ∉ serverText host file := by
    have words : 0 ∉ ascii "GET /" ∧ 0 ∉ ascii " HTTP/1.0" ∧ 0 ∉ eol ∧ 0 ∉ ascii "Host: " := by decide
    simp only [serverText,List.mem_append,not_or]
    exact ⟨⟨⟨⟨⟨⟨⟨words.1,listed.2.2.1⟩,words.2.1⟩,words.2.2.1⟩,words.2.2.2⟩,named.2.2.1⟩,words.2.2.1⟩,
      words.2.2.1⟩
  have whole : snprintf 19999 (serverText host file) = serverText host file :=
    List.take_of_length_le (by omega)
  rw [pathToken,serverRequest,whole,cstringExact noNul]
  have shape : serverText host file = ascii "GET" ++ 32::(47::file ++ 32::72::(ascii "TTP/1.0" ++ eol ++
      ascii "Host: " ++ host ++ eol ++ eol)) := by simp [serverText,start,version]
  rw [shape]
  exact pathScanned listed.2.1

theorem relativePath {host file : List UInt8} {port : Nat} (wf : (absolute host port file).WellFormed)
    (listed : Word file) :
    pathToken (absolute host port file).relative =
      some ((if file.head? = some 47 then [] else ascii "/") ++ file) := by
  obtain ⟨path,same,plain⟩ : ∃ path, (if file.head? = some 47 then [] else ascii "/") ++ file = 47::path ∧
      32 ∉ path := by
    obtain ⟨c,rest,rfl⟩ := List.exists_cons_of_ne_nil listed.1
    have blank := listed.2.1
    by_cases slash : c = 47
    · exact ⟨rest,by simp [slash],by simpa [slash] using blank⟩
    · exact ⟨c::rest,by simp [slash]; rfl,blank⟩
  have version : ascii "HTTP/1.0" = 72::ascii "TTP/1.0" := by decide
  have shape : (absolute host port file).relative = ascii "GET" ++ 32::(47::path ++ 32::72::(ascii "TTP/1.0" ++
      eol ++ (absolute host port file).lines)) := by
    simp [Request.relative,absolute,version,← same]
  have noNul : 0 ∉ (absolute host port file).relative := by
    have all := wf.host.noNul
    simp only [Request.header,Request.relative,List.mem_append,not_or] at all ⊢
    obtain ⟨⟨⟨⟨⟨⟨⟨method,_⟩,_⟩,path⟩,blank⟩,version⟩,line⟩,lines⟩ := all
    exact ⟨⟨⟨⟨⟨⟨method,blank⟩,path⟩,blank⟩,version⟩,line⟩,lines⟩
  rw [pathToken,cstringExact noNul,shape,same]
  exact pathScanned plain

/-- Both requests name the same file exactly when the list gives it without a leading slash. -/
theorem sameFileExact {host file : List UInt8} {port : Nat} (named : Word host) (listed : Word file)
    (proxied : (proxyText (http ++ host) port file).length ≤ 19998)
    (direct : (serverText host file).length ≤ 19998) :
    SamePath host port file ↔ file.head? ≠ some 47 := by
  have wf := absoluteWellFormed named listed proxied
  have whole : proxyRequest (http ++ host) port file = (absolute host port file).header := by
    rw [proxyRequest,snprintf,List.take_of_length_le (by omega),absoluteHeader]
  have size := proxied
  rw [absoluteHeader] at size
  have value := hostValue wf.host (hostNear wf.host (by omega))
  have stripped := strippedFound wf value
  rw [← whole] at stripped
  have far := relativePath wf listed
  have near := directPath named listed direct
  constructor
  · rintro ⟨other,path,found,fromProxy,fromServer⟩ slash
    cases Option.some.inj (Option.some.inj (stripped.symm.trans found))
    rw [far,if_pos slash] at fromProxy
    rw [near] at fromServer
    have same := (Option.some.inj fromServer).trans (Option.some.inj fromProxy).symm
    simp at same
  · intro plain
    rw [if_neg plain] at far
    exact ⟨_,_,stripped,far,near⟩

theorem sameFileIndex : SamePath (ascii "h") 80 (ascii "a.html") ↔ (ascii "a.html").head? ≠ some 47 :=
  @sameFileExact _ _ 80 (by unfold Word Plain; decide) (by unfold Word Plain; decide) (by decide +kernel)
    (by decide +kernel)

theorem slashDiffers : Word (ascii "h") ∧ Word (ascii "/a.html") ∧
    (proxyText (http ++ ascii "h") 80 (ascii "/a.html")).length ≤ 19998 ∧
    (serverText (ascii "h") (ascii "/a.html")).length ≤ 19998 ∧
    ¬ SamePath (ascii "h") 80 (ascii "/a.html") := by
  have proxied : (stripAbsURL (proxyRequest (http ++ ascii "h") 80 (ascii "/a.html"))).map
      (fun stripped => stripped.bind pathToken) = some (some (ascii "/a.html")) := by decide +kernel
  have direct : pathToken (serverRequest (ascii "h") (ascii "/a.html")) = some (ascii "//a.html") := by
    decide +kernel
  refine ⟨by unfold Word Plain; decide,by unfold Word Plain; decide,by decide +kernel,by decide +kernel,?_⟩
  intro ⟨stripped,path,found,fromProxy,fromServer⟩
  rw [found] at proxied
  have far := fromProxy.symm.trans (Option.some.inj proxied)
  have near := fromServer.symm.trans direct
  exact absurd (far.symm.trans near) (by decide)

end IttyBittyServer.ClientRequest
