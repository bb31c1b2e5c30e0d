import LiveConfig.Consul
import LiveConfig.Proofs.Http.Url
import LiveConfig.Proofs.Kv.Create

/-!
# Consul — Agent

What an agent takes from requests.  A request names a key by its path: what stands behind the path of
all keys, with the escapes undone.  Requests for a key of letters, digits, hyphens, underscores and
slashes can be sent, and name the key without the slashes it starts with (`exists_request`).

An agent that creates the keys that are named to it, and acknowledges each, does to its store what
creating the keys in there does, but for these slashes (`writeAll_create`).
-/

namespace LiveConfig.Consul

open Http.Url (IsPlain isWord)
open Kv (Bytes Memory Source)

/-! ### The named key -/

/-- The target below which an agent serves its keys. -/
def base? (c : Consul) : Option String :=
  (Http.Url.parse? (Kv.trimRoot c.address ++ root)).map Http.Url.target

/-- The key that a request names: what stands in its path behind that of all keys. -/
def named? (c : Consul) (r : Http.Request) : Option String := do
  let base ← c.base?
  let rest ← Text.afterStart? base.toList r.target.toList
  return String.ofList (Text.percentDecode (rest.takeWhile (· != '?')))

/-- A key without the separators it starts with. -/
def bare (key : String) : String := String.ofList (key.toList.dropWhile (· == Kv.separator))

/-- Requests can be sent, and the address is one of a path, without a query and a number sign. -/
structure Serves (c : Consul) : Prop where
  sends : (c.list? "" none).isSome = true
  query : '?' ∉ c.address.toList
  mark : '#' ∉ c.address.toList

variable {c : Consul} {key : String}

theorem toList_bare (key : String) :
    (bare key).toList = key.toList.dropWhile (· == Kv.separator) := String.toList_ofList

theorem isPlain_bare (h : IsPlain key.toList) : IsPlain (bare key).toList := by
  intro d hd
  rw [toList_bare] at hd
  exact h d ((List.dropWhile_suffix _).subset hd)

theorem mem_of_mem_trimRoot {d : Char} {s : String} (h : d ∈ (Kv.trimRoot s).toList) :
    d ∈ s.toList := by
  rw [Kv.trimRoot, String.toList_ofList] at h
  exact (List.rdropWhile_prefix (· == Kv.separator) s.toList).subset h

/-- The address of a key, as one below that of the agent. -/
theorem url_eq (c : Consul) (key : String) :
    c.url key = String.ofList ((Kv.trimRoot c.address).toList ++
      '/' :: (['v', '1'] ++ '/' :: (['k', 'v'] ++ '/' :: (bare key).toList))) := by
  refine String.toList_injective ?_
  simp [url, root, bare]

theorem url_nil (c : Consul) :
    Kv.trimRoot c.address ++ root = String.ofList ((Kv.trimRoot c.address).toList ++
      '/' :: (['v', '1'] ++ '/' :: (['k', 'v'] ++ ['/']))) := by
  refine String.toList_injective ?_
  simp [root]

theorem Serves.exists_above (hc : c.Serves) : ∃ above headers,
    Http.Url.parse? (Kv.trimRoot c.address ++ root) = some above ∧
      Http.headers? "x-consul-token" c.token = some headers := by
  have hsends := hc.sends
  have hurl : c.url "" = Kv.trimRoot c.address ++ root := String.append_empty
  simp only [list?, request?, hurl] at hsends
  cases hparse : Http.Url.parse? (Kv.trimRoot c.address ++ root) with
  | none => simp [hparse] at hsends
  | some above =>
      cases hheaders : Http.headers? "x-consul-token" c.token with
      | none => simp [hparse, hheaders] at hsends
      | some headers => exact ⟨above, headers, rfl, rfl⟩

/-- **Requests can be sent** for every plain key, and name it without the slashes it starts with. -/
theorem exists_request (hc : c.Serves) (hkey : IsPlain key.toList) (method : String)
    (params : List (String × String)) (body : Bytes) :
    ∃ r, c.request? method key params body = some r ∧ r.body = body ∧
      c.named? r = some (bare key) := by
  obtain ⟨above, headers, habove, hheaders⟩ := hc.exists_above
  have hplain := isPlain_bare hkey
  have hname : ∀ d ∈ ['v', '1'], isWord d = true := List.all_eq_true.mp (by decide)
  have hdir : ∀ d ∈ ['k', 'v'], isWord d = true := List.all_eq_true.mp (by decide)
  obtain ⟨u, hu, htarget⟩ := Http.Url.exists_target (List.cons_ne_nil _ _) hname hdir
    (fun h => hc.query (mem_of_mem_trimRoot h)) (fun h => hc.mark (mem_of_mem_trimRoot h))
    (url_nil c ▸ habove) hplain
  rw [← url_eq] at hu
  obtain ⟨query, hquery⟩ := Http.Url.exists_withParams u
    ((c.datacenter.map fun dc => ("dc", dc)).toList ++ params)
  refine ⟨⟨method, { u with query := query }.target, headers, body⟩, ?_, rfl, ?_⟩
  · simp only [request?, hu, hheaders, bind, Option.bind, hquery]
    rfl
  · have hmark := Http.Url.not_mem_escaped hplain (d := '?') rfl (by decide) (by decide) rfl
    have hpercent : '%' ∉ (bare key).toList := hplain.not_mem rfl (by decide)
    simp only [named?, base?, habove, Option.map_some, Option.bind_eq_bind, Option.bind_some,
      htarget, Text.afterStart?_append]
    rw [Http.Url.takeWhile_querySuffix hmark,
      Text.percentDecode_percentEncode fun d hd _ heq => hpercent (heq ▸ hd), String.ofList_toList]
    rfl

/-! ### Creating keys -/

/-- An agent takes a request to create a key: it creates the one that is named, unless it is there,
and says whether it did. -/
def accept (c : Consul) (ack : Bool → Http.Response) (r : Http.Request) :
    StateM Memory (Option Http.Response) := fun m =>
  match c.named? r with
  | none => (none, m)
  | some key => (some (ack (m.insert key r.body).1), (m.insert key r.body).2)

/-- Asks an agent to create a key. -/
def create (c : Consul) (ack : Bool → Http.Response) (key : String) (value : Bytes) :
    StateM Memory (Except Error Bool) := do
  let request := c.insert? key value
  let answer ←
    match request with
    | none => pure none
    | some r => c.accept ack r
  return exchange request answer created

variable {ack : Bool → Http.Response}

/-- An agent that is asked to create a key creates it without the slashes it starts with. -/
theorem create_eq (hc : c.Serves) (hack : ∀ done, created (ack done) = .ok done)
    (hkey : IsPlain key.toList) (value : Bytes) :
    c.create ack key value = Memory.create (bare key) value := by
  obtain ⟨r, hr, hbody, hnamed⟩ := exists_request hc hkey "PUT" [("cas", "0")] value
  have hinsert : c.insert? key value = some r := hr
  funext m
  simp only [create, hinsert, bind, StateT.bind, accept, hnamed, hbody, exchange, hack]
  rfl

/-- **Creating through an agent** is creating in its store. -/
theorem writeAll_create (hc : c.Serves) (hack : ∀ done, created (ack done) = .ok done)
    {entries : List (String × Bytes)} (h : ∀ e ∈ entries, IsPlain e.1.toList) (m : Memory) :
    Source.writeAll (c.create ack) entries m =
      ([], m.createAll (entries.map fun e => (bare e.1, e.2))) := by
  induction entries generalizing m with
  | nil => rfl
  | cons e rest ih =>
      obtain ⟨key, value⟩ := e
      have hrest := ih fun e he => h e (List.mem_cons_of_mem _ he)
      simp only [Source.writeAll, create_eq hc hack (h _ List.mem_cons_self), bind, StateT.bind,
        Memory.create]
      rw [hrest]
      rfl

end LiveConfig.Consul
