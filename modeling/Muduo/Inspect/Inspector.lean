import Muduo.Http.HttpRequest
import Muduo.Http.HttpResponse
import Muduo.Lib.Search
import Muduo.Lib.Segments

/-!
# Inspector

Commands by the name of their module and their own, which a request's path leads to.
-/

namespace Muduo

open Lib

namespace Inspector

abbrev ArgList := List Bytes

/-- A `boost::function`, which may be empty. -/
abbrev Callback := Option (HttpRequest.Method → ArgList → Bytes)

end Inspector

structure Inspector where
  commands : OrdMap Bytes (OrdMap Bytes Inspector.Callback) := OrdMap.empty
  helps : OrdMap Bytes (OrdMap Bytes Bytes) := OrdMap.empty

namespace Inspector

-- ---------------------------------------------------------------------------
-- The code
-- ---------------------------------------------------------------------------

def find (str : Bytes) (c : UInt8) (start : Nat) : Option Nat :=
  if c ∈ str.drop start then some (start + (str.drop start).idxOf c) else none

def substr (str : Bytes) (pos n : Nat) : Bytes := (str.drop pos).take n

theorem find_lt (h : find str c start = some pos) : start ≤ pos ∧ pos < str.length := by
  unfold find at h
  split at h
  · rename_i hmem
    cases h
    have hlt := List.idxOf_lt_length_of_mem hmem
    rw [List.length_drop] at hlt
    omega
  · cases h

/-- The loop of `split`, and the last segment behind it. -/
def splitLoop (str : Bytes) (start : Nat) (result : List Bytes) : List Bytes :=
  match _h : find str 47 start with
  | some pos =>
    splitLoop str (pos + 1)
      (if pos > start then result ++ [substr str start (pos - start)] else result)
  | none =>
    if start < str.length then result ++ [substr str start (str.length - start)] else result
termination_by str.length - start
decreasing_by
  have hpos := find_lt _h
  omega

def split (str : Bytes) : List Bytes := splitLoop str 0 []

def add (i : Inspector) (module command : Bytes) (cb : Callback) (help : Bytes) : Inspector :=
  { commands := i.commands.insertIn module command cb
    helps := i.helps.insertIn module command help }

def helpLine (e : Bytes × Bytes × Bytes) : Bytes :=
  ascii "/" ++ e.1 ++ ascii "/" ++ e.2.1 ++ ascii "\t" ++ e.2.2 ++ ascii "\n"

def answer (resp : HttpResponse) (body : Bytes) : HttpResponse :=
  let resp := resp.setStatus HttpResponse.k200Ok (ascii "OK")
  let resp := resp.setContentType (ascii "text/plain")
  resp.setBody body

def notFound (resp : HttpResponse) : HttpResponse :=
  resp.setStatus HttpResponse.k404NotFound (ascii "Not Found")

/-- `if(it->second)`: an empty callback is no command. -/
def call (resp : HttpResponse) (method : HttpRequest.Method) (args : ArgList) :
    Callback → HttpResponse
  | some cb => answer resp (cb method args)
  | none => notFound resp

def onRequest (i : Inspector) (req : HttpRequest) (resp : HttpResponse) : HttpResponse :=
  if req.path = ascii "/" then
    answer resp (i.helps.entriesIn.flatMap helpLine)
  else
    match split req.path with
    | module :: command :: args =>
      match i.commands.find? module with
      | none => notFound resp
      | some commList =>
        match commList.find? command with
        | some cb => call resp req.method args cb
        | none => notFound resp
    | _ => notFound resp

-- ---------------------------------------------------------------------------
-- The loop of split
-- ---------------------------------------------------------------------------

theorem find_some (h : find str c start = some pos) : ∃ before behind,
    str.drop start = before ++ c :: behind ∧ c ∉ before ∧ pos = start + before.length ∧
    substr str start (pos - start) = before ∧ str.drop (pos + 1) = behind := by
  unfold find at h
  split at h
  · rename_i hmem
    obtain ⟨before, behind, hdrop, hbefore⟩ := List.eq_append_cons_of_mem hmem
    rw [hdrop, idxOf_append_cons hbefore] at h
    cases h
    refine ⟨before, behind, hdrop, hbefore, rfl, ?_, ?_⟩
    · rw [substr, hdrop, Nat.add_sub_cancel_left, List.take_left]
    · rw [Nat.add_assoc, ← List.drop_drop, hdrop, ← List.drop_drop, List.drop_left]
      rfl
  · cases h

theorem find_none (h : find str c start = none) : c ∉ str.drop start := by
  unfold find at h
  split at h
  · cases h
  · assumption

/-- A turn takes the segment that ends at the next slash, if it is not empty. -/
theorem splitLoop_eq (str : Bytes) (start : Nat) (result : List Bytes) :
    splitLoop str start result = result ++ segments 47 (str.drop start) := by
  fun_induction splitLoop str start result with
  | case1 start result pos h ih =>
    obtain ⟨before, behind, hdrop, hbefore, rfl, hsub, hrest⟩ := find_some h
    simp only [dite_eq_ite] at ih
    rw [ih, hsub, hrest, hdrop, segments_cut hbefore]
    by_cases hempty : before = []
    · simp [hempty]
    · have hlt : start + before.length > start :=
        Nat.lt_add_of_pos_right (List.length_pos_iff.mpr hempty)
      rw [if_pos hlt, if_neg hempty, List.append_assoc]
  | case2 start result h hlt =>
    have hne : str.drop start ≠ [] := mt List.drop_eq_nil_iff.mp (Nat.not_le.mpr hlt)
    have hsub : substr str start (str.length - start) = str.drop start := by
      rw [substr, ← List.length_drop, List.take_length]
    rw [segments_rest (find_none h), if_neg hne, hsub]
  | case3 start result h hge =>
    have hnil : str.drop start = [] := List.drop_eq_nil_iff.mpr (Nat.not_lt.mp hge)
    rw [segments_rest (find_none h), if_pos hnil, List.append_nil]

theorem split_eq (str : Bytes) : split str = segments 47 str := splitLoop_eq str 0 []

-- ---------------------------------------------------------------------------
-- Registrations
-- ---------------------------------------------------------------------------

structure Registration where
  module : Bytes
  command : Bytes
  cb : Callback
  help : Bytes

/-- Names that a path can spell. -/
structure Registration.Named (r : Registration) : Prop where
  module : r.module ≠ []
  command : r.command ≠ []
  moduleSlash : 47 ∉ r.module
  commandSlash : 47 ∉ r.command

def addAll (i : Inspector) (adds : List Registration) : Inspector :=
  adds.foldl (fun i r => i.add r.module r.command r.cb r.help) i

def registered (adds : List Registration) (module command : Bytes) : Option Registration :=
  adds.reverse.find? fun r => r.module = module ∧ r.command = command

/-- The maps hold the last registration of each command. -/
structure Holds (i : Inspector) (adds : List Registration) : Prop where
  commands : ∀ module command, i.commands.findIn? module command =
    (registered adds module command).map Registration.cb
  helps : ∀ module command, i.helps.findIn? module command =
    (registered adds module command).map Registration.help

theorem registered_concat (adds : List Registration) (r : Registration) (module command : Bytes) :
    registered (adds ++ [r]) module command =
      if module = r.module ∧ command = r.command then some r
      else registered adds module command := by
  rw [registered, List.reverse_concat, List.find?_cons]
  by_cases hr : r.module = module ∧ r.command = command
  · simp [hr.1, hr.2]
  · have hother : ¬(module = r.module ∧ command = r.command) :=
      fun h => hr ⟨h.1.symm, h.2.symm⟩
    rw [if_neg hother, registered]
    simp only [hr, decide_false]

theorem holds_addAll (adds : List Registration) : Holds (addAll {} adds) adds := by
  induction adds using List.reverseRecOn with
  | nil => exact ⟨fun _ _ => rfl, fun _ _ => rfl⟩
  | append_singleton adds r ih =>
    have hadd : addAll {} (adds ++ [r]) =
        (addAll {} adds).add r.module r.command r.cb r.help := by
      rw [addAll, List.foldl_append]
      rfl
    refine ⟨fun module command => ?_, fun module command => ?_⟩
    · rw [hadd, add, OrdMap.findIn?_insertIn, registered_concat, ih.commands]
      split <;> rfl
    · rw [hadd, add, OrdMap.findIn?_insertIn, registered_concat, ih.helps]
      split <;> rfl

theorem named_registered {adds : List Registration} (hnamed : ∀ r ∈ adds, r.Named)
    (h : registered adds module command = some r) :
    r.Named ∧ r.module = module ∧ r.command = command := by
  have hmem := List.mem_reverse.mp (List.mem_of_find?_eq_some h)
  exact ⟨hnamed r hmem, by simpa using List.find?_some h⟩

-- ---------------------------------------------------------------------------
-- Requests
-- ---------------------------------------------------------------------------

/-- The segments name a registered command with a callback and leave it `args`. -/
def Routes (adds : List Registration) (segs : List Bytes)
    (f : HttpRequest.Method → ArgList → Bytes) (args : ArgList) : Prop :=
  ∃ module command r, segs = module :: command :: args ∧
    registered adds module command = some r ∧ r.cb = some f

variable {i : Inspector} {adds : List Registration}

theorem onRequest_command (h : Holds i adds) (req : HttpRequest) (resp : HttpResponse)
    (hpath : req.path ≠ ascii "/") {module command : Bytes} {args : ArgList}
    (hsegs : segments 47 req.path = module :: command :: args) :
    i.onRequest req resp =
      call resp req.method args ((registered adds module command).bind Registration.cb) := by
  have hfind := h.commands module command
  simp only [onRequest, if_neg hpath, split_eq, hsegs]
  rw [OrdMap.findIn?] at hfind
  cases hlist : i.commands.find? module with
  | none =>
    rw [hlist] at hfind
    have hnone : registered adds module command = none := Option.map_eq_none_iff.mp hfind.symm
    rw [hnone]
    rfl
  | some commList =>
    rw [hlist, Option.bind_some] at hfind
    simp only [hfind]
    cases registered adds module command <;> rfl

theorem onRequest_routes (h : Holds i adds) (req : HttpRequest) (resp : HttpResponse)
    (hpath : req.path ≠ ascii "/") (hroutes : Routes adds (segments 47 req.path) f args) :
    i.onRequest req resp = answer resp (f req.method args) := by
  obtain ⟨module, command, r, hsegs, hr, hcb⟩ := hroutes
  rw [onRequest_command h req resp hpath hsegs, hr, Option.bind_some, hcb, call]

theorem onRequest_lost (h : Holds i adds) (req : HttpRequest) (resp : HttpResponse)
    (hpath : req.path ≠ ascii "/") (hlost : ¬∃ f args, Routes adds (segments 47 req.path) f args) :
    i.onRequest req resp = notFound resp := by
  match hsegs : segments 47 req.path with
  | [] | [_] => simp only [onRequest, if_neg hpath, split_eq, hsegs]
  | module :: command :: args =>
    rw [onRequest_command h req resp hpath hsegs]
    cases hf : (registered adds module command).bind Registration.cb with
    | none => rfl
    | some f =>
      obtain ⟨r, hr, hcb⟩ := Option.bind_eq_some_iff.mp hf
      exact absurd ⟨f, args, module, command, r, hsegs, hr, hcb⟩ hlost

theorem onRequest_segments (h : Holds i adds) (req : HttpRequest) (resp : HttpResponse)
    {path : Bytes} (hpath : req.path ≠ ascii "/") (hpath' : path ≠ ascii "/")
    (hsegs : segments 47 path = segments 47 req.path) :
    i.onRequest { req with path := path } resp = i.onRequest req resp := by
  by_cases hroutes : ∃ f args, Routes adds (segments 47 req.path) f args
  · obtain ⟨f, args, hroutes⟩ := hroutes
    rw [onRequest_routes h req resp hpath hroutes]
    exact onRequest_routes h { req with path := path } resp hpath' (hsegs ▸ hroutes)
  · rw [onRequest_lost h req resp hpath hroutes]
    exact onRequest_lost h { req with path := path } resp hpath' (hsegs ▸ hroutes)

theorem segments_listed (hmodule : module ≠ []) (hcommand : command ≠ []) (hm : 47 ∉ module)
    (hc : 47 ∉ command) :
    segments 47 (ascii "/" ++ module ++ ascii "/" ++ command) = [module, command] := by
  have hslash : ascii "/" = [47] := rfl
  have hpath : ascii "/" ++ module ++ ascii "/" ++ command =
      [] ++ 47 :: (module ++ 47 :: command) := by
    rw [hslash]
    simp
  rw [hpath, segments_cut List.not_mem_nil, segments_cut hm, segments_rest hc, if_neg hmodule,
    if_neg hcommand]
  rfl

theorem mem_listed (h : Holds i adds) {module command help : Bytes} :
    (module, command, help) ∈ i.helps.entriesIn ↔
      ∃ r, registered adds module command = some r ∧ r.help = help := by
  rw [OrdMap.mem_entriesIn, h.helps, Option.map_eq_some_iff]

/-- What is listed is a command, which its path asks for: one without a callback is not
found. -/
theorem listed_reached (h : Holds i adds) (hnamed : ∀ r ∈ adds, r.Named) (resp : HttpResponse)
    {module command help : Bytes} (hlisted : (module, command, help) ∈ i.helps.entriesIn) :
    ∃ r, registered adds module command = some r ∧ r.help = help ∧
      ∀ req : HttpRequest, req.path = ascii "/" ++ module ++ ascii "/" ++ command →
        i.onRequest req resp = call resp req.method [] r.cb := by
  obtain ⟨r, hr, hhelp⟩ := (mem_listed h).mp hlisted
  obtain ⟨hname, rfl, rfl⟩ := named_registered hnamed hr
  have hsegs := segments_listed hname.module hname.command hname.moduleSlash hname.commandSlash
  refine ⟨r, hr, hhelp, fun req hpath => ?_⟩
  rw [← hpath] at hsegs
  have hne : req.path ≠ ascii "/" := by
    intro heq
    rw [heq] at hsegs
    have hnone : segments 47 (ascii "/") = [] := by decide
    rw [hnone] at hsegs
    cases hsegs
  rw [onRequest_command h req resp hne hsegs, hr, Option.bind_some]

/-- Requests are led by the segments of their paths alone, and what the index page lists
is what is registered. -/
theorem routing {adds : List Registration} (hnamed : ∀ r ∈ adds, r.Named)
    (resp : HttpResponse) :
    (∀ req : HttpRequest, req.path ≠ ascii "/" → ∃ segs, Segmented 47 req.path segs ∧
      ((onRequest (addAll {} adds) req resp).statusCode = 200 ↔ ∃ f args, Routes adds segs f args) ∧
      (∀ f args, Routes adds segs f args →
        onRequest (addAll {} adds) req resp = answer resp (f req.method args)) ∧
      ((¬∃ f args, Routes adds segs f args) →
        onRequest (addAll {} adds) req resp = notFound resp) ∧
      ∀ path, path ≠ ascii "/" → Segmented 47 path segs →
        onRequest (addAll {} adds) { req with path := path } resp =
          onRequest (addAll {} adds) req resp) ∧
    (∀ req : HttpRequest, req.path = ascii "/" → onRequest (addAll {} adds) req resp =
      answer resp ((addAll {} adds).helps.entriesIn.flatMap helpLine)) ∧
    ∀ module command help, (module, command, help) ∈ (addAll {} adds).helps.entriesIn →
      ∃ r, registered adds module command = some r ∧ r.help = help ∧
        ∀ req : HttpRequest, req.path = ascii "/" ++ module ++ ascii "/" ++ command →
          onRequest (addAll {} adds) req resp = call resp req.method [] r.cb := by
  have h := holds_addAll adds
  refine ⟨fun req hpath => ?_, fun req hpath => if_pos hpath,
    fun module command help hlisted => listed_reached h hnamed resp hlisted⟩
  refine ⟨segments 47 req.path, segmented_segments 47 req.path, ⟨fun hok => ?_, ?_⟩,
    fun f args hroutes => onRequest_routes h req resp hpath hroutes,
    onRequest_lost h req resp hpath, fun path hpath' hsegs =>
      onRequest_segments h req resp hpath hpath' hsegs.eq_segments.symm⟩
  · by_contra hlost
    rw [onRequest_lost h req resp hpath hlost] at hok
    exact absurd hok (by decide : HttpResponse.k404NotFound ≠ 200)
  · rintro ⟨f, args, hroutes⟩
    rw [onRequest_routes h req resp hpath hroutes]
    rfl

/-- A command that is registered twice, and slashes to spare. -/
theorem routing_twice :
    (onRequest (addAll {} [⟨ascii "a", ascii "b", none, ascii "old"⟩,
        ⟨ascii "a", ascii "b", some fun _ args => args.flatten, ascii "new"⟩])
      { path := ascii "//a/b/c//d" } { closeConnection := false }).statusCode = 200 := by
  have hnamed : ∀ r ∈ [Registration.mk (ascii "a") (ascii "b") none (ascii "old"),
      ⟨ascii "a", ascii "b", some fun _ args => args.flatten, ascii "new"⟩], r.Named := by
    intro r hr
    simp only [List.mem_cons, List.not_mem_nil, or_false] at hr
    obtain rfl | rfl := hr <;> exact ⟨by decide, by decide, by decide, by decide⟩
  obtain ⟨hroute, -, -⟩ := routing hnamed { closeConnection := false }
  obtain ⟨segs, hsegs, hok, -⟩ := hroute { path := ascii "//a/b/c//d" } (by decide)
  refine hok.mpr ⟨fun _ args => args.flatten, [ascii "c", ascii "d"], ascii "a", ascii "b", _, ?_,
    rfl, rfl⟩
  rw [hsegs.eq_segments]
  decide +kernel

/-- A command without a callback is listed, and its path is not found. -/
theorem listed_not_found :
    (ascii "a", ascii "b", ascii "help") ∈
      (addAll {} [⟨ascii "a", ascii "b", none, ascii "help"⟩]).helps.entriesIn ∧
    (onRequest (addAll {} [⟨ascii "a", ascii "b", none, ascii "help"⟩])
      { path := ascii "/a/b" } { closeConnection := false }).statusCode = 404 := by
  decide +kernel

end Inspector

end Muduo
