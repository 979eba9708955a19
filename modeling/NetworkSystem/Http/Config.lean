import NetworkSystem.Strutil

/-! The configuration of the HTTP server, and the content type of a file name. -/

namespace NetworkSystem.Http

open Bytes

/-- `config_t`. The arrays have 32 entries; those that nothing was stored into are
empty strings. All strings come from the lines of a file. -/
structure Config where
  port : Nat
  keepaliveTime : Nat
  countContentTypes : Nat
  root : CString 256
  index : List (CString 128)
  fileExtensions : List (CString 128)
  contentTypes : List (CString 128)
  contentTypes_line : ∀ string ∈ contentTypes, 10 ∉ string.text

/-- Entry `i` of an array of strings. -/
def entry {size : Nat} (strings : List (CString size)) (i : Nat) : Bytes :=
  match strings[i]? with
  | none => []
  | some string => string.text

theorem entry_length {size : Nat} (strings : List (CString size)) (i : Nat) (room : 0 < size) :
    (entry strings i).length < size := by
  simp only [entry]
  split
  · exact room
  · rename_i string _
    exact string.fits

/-- `get_file_extension`: from the last dot on. -/
def getFileExtension (filename : Bytes) : Bytes :=
  if 46 ∈ filename then 46 :: filename.rtakeWhile (· ≠ 46) else []

/-- The first entry of the table for an extension, as the loop of `get_content_type`
finds it. -/
def findContentType (conf : Config) (extension : Bytes) : Option Bytes :=
  ((List.range conf.countContentTypes).find? (fun i => entry conf.fileExtensions i = extension)).map
    (entry conf.contentTypes)

/-- `get_content_type` into `content_type[64]`, by way of `extension[64]`. -/
def getContentType (conf : Config) (filename : Bytes) : Option Bytes :=
  match storeText 64 (getFileExtension filename) with
  | none => none
  | some extension =>
      if extension.length ≠ 0 then
        match findContentType conf extension with
        | none => some []
        | some found => storeText 64 found
      else some []

theorem getContentType_line (conf : Config) (filename contentType : Bytes)
    (found : getContentType conf filename = some contentType) : 10 ∉ contentType := by
  simp only [getContentType] at found
  split at found
  · cases found
  · split at found
    · split at found
      · rw [← Option.some.inj found]
        exact List.not_mem_nil
      · rename_i type listed
        rw [← (storeText_eq_some.mp found).2]
        simp only [findContentType] at listed
        obtain ⟨i, -, same⟩ := Option.map_eq_some_iff.mp listed
        rw [← same, entry]
        split
        · exact List.not_mem_nil
        · rename_i string present
          exact conf.contentTypes_line string (List.mem_of_getElem? present)
    · rw [← Option.some.inj found]
      exact List.not_mem_nil

def sampleConfig : Config where
  port := 8888
  keepaliveTime := 10
  countContentTypes := 2
  root := ⟨ascii "/www", by decide, by decide⟩
  index := [⟨ascii "index.html", by decide, by decide⟩]
  fileExtensions := [⟨ascii ".html", by decide, by decide⟩, ⟨ascii ".txt", by decide, by decide⟩]
  contentTypes := [⟨ascii "text/html", by decide, by decide⟩, ⟨ascii "text/plain", by decide, by decide⟩]
  contentTypes_line := by decide

end NetworkSystem.Http
