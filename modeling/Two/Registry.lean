import Mathlib.Data.List.Find
import Mathlib.Data.List.Induction
import Mathlib.Data.List.Infix
import Mathlib.Tactic.Common
import Two.Http

/-!
# The resources of the server

`two_register_resource` fills the table of resources that `http_handle_request` searches. A method is
supported if it begins with `GET`, and stored as `GET`; the search compares the method by its
beginning, and the path after it was cut to the size of the table's field.

## Main definitions

* `Registration`, `twoRegisterResource`, `registry`: the calls that fill the table
* `owners`: the registrations that the stored handlers come from
* `requestPath`, `cutPath`: the path of a request, and what `parse_uri` leaves of it
* `uriResource`, `servedBy`: the resource whose handler is called, and the registration of that
* `DispatchExact`: the handler called is the one registered for the request's method and path
* `Unmixed rs`: two registrations for one path both have a method that is supported by itself
* `Registered rs`: the resources that are stored are unique and stay found

## Main results

* `dispatchExact_iff`: exactly when a request is dispatched by its method and path
* `registered_of_unmixed`: the table after every unmixed sequence of registrations
-/

namespace Two

/-- `CONTENT_TYPES`. -/
def allowedContentTypes : List Bytes :=
  [ascii "text/plain", ascii "application/json", ascii "application/cbor"]

/-- `content_type_allowed`. -/
def contentTypeAllowed (contentType : Bytes) : Option Bytes :=
  allowedContentTypes.find? fun allowed => allowed.isPrefixOf contentType

/-- `is_valid_path`. -/
def isValidPath (path : Bytes) : Bool := path.head? == some 47

/-- The arguments of `two_register_resource`. -/
structure Registration where
  method : Bytes
  path : Bytes
  contentType : Bytes
  handler : ℕ → Bytes → Bytes → ℤ × Bytes

/-- `two_register_resource`, whose path is shorter than `TWO_MAX_PATH_SIZE`: the value returned and
the resources stored. The method is compared as it was given, and stored as the one it begins with. -/
def twoRegisterResource (server : Resources) (r : Registration) : ℤ × Resources :=
  if !httpHasMethodSupport r.method then (-1, server)
  else if !isValidPath r.path then (-1, server)
  else
    match contentTypeAllowed r.contentType with
    | none => (-1, server)
    | some ct =>
      match server.findIdx? fun res =>
          res.path.take twoMaxPathSize == r.path.take twoMaxPathSize && res.method == r.method with
      | some i =>
        (0, server.modify i fun res => { res with contentType := ct, handler := r.handler })
      | none =>
        if server.length ≥ twoMaxResources then (-1, server)
        else
          (0, server ++
            [⟨r.path.take twoMaxPathSize, (httpGetMethod r.method).getD [], ct, r.handler⟩])

/-- The resources after a sequence of registrations, whatever they return. -/
def registry (rs : List Registration) : Resources :=
  rs.foldl (fun server r => (twoRegisterResource server r).2) []

theorem registry_snoc (rs : List Registration) (r : Registration) :
    registry (rs ++ [r]) = (twoRegisterResource (registry rs) r).2 := by
  rw [registry, List.foldl_append]
  rfl

/-- The only method that is supported. -/
def methodGet : Bytes := ascii "GET"

/-- A registration that is not refused for its arguments. -/
structure Registration.Acceptable (r : Registration) : Prop where
  method : httpHasMethodSupport r.method = true
  path : isValidPath r.path = true
  contentType : (contentTypeAllowed r.contentType).isSome

section Methods

variable {method : Bytes}

/-- A method is supported if it begins with `GET`. -/
theorem httpHasMethodSupport_iff : httpHasMethodSupport method = true ↔ methodGet <+: method := by
  rw [← List.isPrefixOf_iff_prefix, httpHasMethodSupport, httpGetMethod, allowedHttpMethods,
    List.find?_cons]
  cases h : (ascii "GET").isPrefixOf method with
  | true =>
    refine iff_of_true ?_ h
    change (ascii "GET").isPrefixOf (ascii "GET") = true
    decide
  | false =>
    refine iff_of_false ?_ (by simp [methodGet, h])
    split
    · exact Bool.false_ne_true
    · rename_i m hm
      have hmem := List.mem_of_find?_eq_some hm
      revert hmem
      have hall : ∀ a ∈ [ascii "HEAD", ascii "POST", ascii "PUT", ascii "DELETE"],
          ¬ (ascii "GET").isPrefixOf a = true := by decide
      exact hall m

/-- A supported method is stored as `GET`. -/
theorem httpGetMethod_of_support (h : httpHasMethodSupport method = true) :
    httpGetMethod method = some methodGet := by
  have hget : (ascii "GET").isPrefixOf method = true :=
    List.isPrefixOf_iff_prefix.mpr (httpHasMethodSupport_iff.mp h)
  rw [httpGetMethod, allowedHttpMethods, List.find?_cons, hget]
  rfl

end Methods

/-- What holds of every resource that is stored. -/
structure Resource.Stored (res : Resource) : Prop where
  method : res.method = methodGet
  path : res.path.length < twoMaxPathSize

/-! ## One registration -/

section Register

variable {server : Resources} {r : Registration}

/-- What a registration does to the resources. -/
inductive Registers (server : Resources) (r : Registration) : ℤ × Resources → Prop
  | refused : Registers server r (-1, server)
  | replaced {a b : Resources} {res : Resource} {ct : Bytes} (h : r.Acceptable)
    (hct : contentTypeAllowed r.contentType = some ct) (hs : server = a ++ res :: b)
    (hpath : res.path = r.path) (hmethod : r.method = methodGet) (hfirst : ∀ k ∈ a, k.path ≠ r.path) :
    Registers server r (0, a ++ { res with contentType := ct, handler := r.handler } :: b)
  | added {ct : Bytes} (h : r.Acceptable) (hct : contentTypeAllowed r.contentType = some ct)
    (hroom : server.length < twoMaxResources)
    (hnew : r.method = methodGet → ∀ k ∈ server, k.path ≠ r.path) :
    Registers server r (0, server ++ [⟨r.path, methodGet, ct, r.handler⟩])

/-- **One registration** is refused, replaces the resource of its path, or adds a resource. -/
theorem registers (hstored : ∀ res ∈ server, res.Stored) (hr : r.path.length < twoMaxPathSize) :
    Registers server r (twoRegisterResource server r) := by
  have htake : r.path.take twoMaxPathSize = r.path := List.take_of_length_le hr.le
  unfold twoRegisterResource
  cases hm : httpHasMethodSupport r.method with
  | false => exact .refused
  | true =>
    cases hp : isValidPath r.path with
    | false => exact .refused
    | true =>
      cases hct : contentTypeAllowed r.contentType with
      | none => exact .refused
      | some ct =>
        have ha : r.Acceptable := ⟨hm, hp, by simp [hct]⟩
        -- the arguments are fine, so the search for the path and the method decides
        simp only [Bool.not_true, Bool.false_eq_true, if_false, htake,
          httpGetMethod_of_support hm, Option.getD_some]
        cases hfind : server.findIdx? (fun res =>
            res.path.take twoMaxPathSize == r.path && res.method == r.method) with
        | none =>
          dsimp only
          split
          · exact .refused
          -- no resource of the path and the method: in particular none that a GET would replace
          · refine .added ha hct (by omega) fun hget k hk hpath => ?_
            have hno := List.findIdx?_eq_none_iff.mp hfind k hk
            rw [List.take_of_length_le (hstored k hk).path.le, hpath, (hstored k hk).method,
              hget] at hno
            simp at hno
        | some i =>
          -- the first resource with the path and the method is replaced
          obtain ⟨hi, hmatch, hbefore⟩ := List.findIdx?_eq_some_iff_getElem.mp hfind
          have hres := hstored _ (List.getElem_mem hi)
          rw [List.take_of_length_le hres.path.le, Bool.and_eq_true, beq_iff_eq, beq_iff_eq]
            at hmatch
          have hsplit : server = server.take i ++ server[i] :: server.drop (i + 1) := by
            rw [← List.drop_eq_getElem_cons hi, List.take_append_drop]
          have hget : r.method = methodGet := hmatch.2.symm.trans hres.method
          have hmodify : server.modify i (fun res =>
              { res with contentType := ct, handler := r.handler }) =
              server.take i ++ { server[i] with contentType := ct, handler := r.handler } ::
                server.drop (i + 1) := by
            rw [List.modify_eq_take_cons_drop hi]
          dsimp only
          rw [hmodify]
          refine .replaced ha hct hsplit hmatch.1 hget fun k hk hpath => ?_
          -- the resources before it have another path, since all have the same method
          obtain ⟨n, hn, rfl⟩ := List.mem_iff_getElem.mp hk
          have hlt : n < i := by rw [List.length_take] at hn; omega
          have hno := hbefore n hlt
          rw [List.getElem_take] at hpath
          have hkn := hstored _ (List.getElem_mem (Nat.lt_trans hlt hi))
          rw [List.take_of_length_le hkn.path.le, hpath, hkn.method, hget] at hno
          simp at hno

/-- A registration that succeeds is not refused for its arguments. -/
theorem Registers.acceptable {out : ℤ × Resources} (h : Registers server r out) (hrc : out.1 = 0) :
    r.Acceptable := by
  cases h with
  | refused => exact absurd hrc (by simp)
  | replaced ha => exact ha
  | added ha => exact ha

end Register

/-! ## Sequences of registrations -/

section Sequences

variable {rs : List Registration} {r : Registration}

/-- The paths of the registrations are shorter than the field of a resource. -/
def Short (rs : List Registration) : Prop := ∀ r ∈ rs, r.path.length < twoMaxPathSize

instance (rs : List Registration) : Decidable (Short rs) := inferInstanceAs (Decidable (∀ r ∈ rs, _))

theorem Short.left {rs' : List Registration} (h : Short (rs ++ rs')) : Short rs :=
  fun k hk => h k (List.mem_append_left _ hk)

theorem Short.last (h : Short (rs ++ [r])) : r.path.length < twoMaxPathSize := h r (by simp)

theorem registry_stored (h : Short rs) : ∀ res ∈ registry rs, res.Stored := by
  induction rs using List.reverseRecOn with
  | nil => simp [registry]
  | append_singleton rs r ih =>
    have hold := ih h.left
    have hout := registers hold h.last
    rw [registry_snoc]
    -- a registration is refused, replaces a resource or adds one
    generalize twoRegisterResource (registry rs) r = out at hout
    cases hout with
    | refused => exact hold
    | replaced _ _ hs hpath _ _ =>
      intro k hk
      rw [hs] at hold
      rcases List.mem_append.mp hk with hk | hk
      · exact hold k (List.mem_append_left _ hk)
      · rcases List.mem_cons.mp hk with rfl | hk
        · have := hold _ (List.mem_append_right _ List.mem_cons_self)
          exact ⟨this.method, this.path⟩
        · exact hold k (List.mem_append_right _ (List.mem_cons_of_mem _ hk))
    | added =>
      intro k hk
      rcases List.mem_append.mp hk with hk | hk
      · exact hold k hk
      · rw [List.mem_singleton.mp hk]
        exact ⟨rfl, h.last⟩

/-- What a registration of the sequence does. -/
theorem registers_at {rs' : List Registration} (h : Short (rs ++ r :: rs')) :
    Registers (registry rs) r (twoRegisterResource (registry rs) r) :=
  registers (registry_stored h.left) (h r (by simp))

theorem length_registry_le (h : Short rs) : (registry rs).length ≤ twoMaxResources := by
  induction rs using List.reverseRecOn with
  | nil => exact Nat.zero_le _
  | append_singleton rs r ih =>
    have hold := ih h.left
    have hout := registers_at h
    rw [registry_snoc]
    generalize twoRegisterResource (registry rs) r = out at hout
    cases hout with
    | refused => exact hold
    | replaced _ _ hs _ _ _ =>
      rw [hs] at hold
      simpa using hold
    | added _ _ hroom _ =>
      rw [List.length_append]
      exact hroom

end Sequences

/-! ## The registrations of the handlers -/

/-- The registrations that the stored handlers come from, after one more: where a resource is
replaced or added, its handler is that of the registration. -/
def ownersAfter (server : Resources) (owners : List Registration) (r : Registration) :
    List Registration :=
  if (twoRegisterResource server r).1 = 0 then
    match server.findIdx? fun res =>
        res.path.take twoMaxPathSize == r.path.take twoMaxPathSize && res.method == r.method with
    | some i => owners.set i r
    | none => owners ++ [r]
  else owners

/-- The stored resources and the registrations that their handlers come from. -/
def ownedAfter (rs : List Registration) : Resources × List Registration :=
  rs.foldl (fun p r => ((twoRegisterResource p.1 r).2, ownersAfter p.1 p.2 r)) ([], [])

/-- The registrations that the handlers of the stored resources come from, in their order. -/
def owners (rs : List Registration) : List Registration := (ownedAfter rs).2

/-- The handler of the resource is that of the registration, for the same path. -/
structure Owns (o : Registration) (res : Resource) : Prop where
  path : o.path = res.path
  handler : o.handler = res.handler

section Owners

variable {rs : List Registration} {r : Registration}

theorem ownedAfter_fst (rs : List Registration) : (ownedAfter rs).1 = registry rs := by
  induction rs using List.reverseRecOn with
  | nil => rfl
  | append_singleton rs r ih =>
    rw [registry_snoc, ← ih, ownedAfter, List.foldl_append]
    rfl

theorem owners_snoc (rs : List Registration) (r : Registration) :
    owners (rs ++ [r]) = ownersAfter (registry rs) (owners rs) r := by
  rw [owners, ownedAfter, List.foldl_append, ← ownedAfter_fst rs]
  rfl

/-- Each handler that is stored belongs to its owner. -/
structure Owned (server : Resources) (owners : List Registration) : Prop where
  length : owners.length = server.length
  owns : ∀ (i : ℕ) res o, server[i]? = some res → owners[i]? = some o → Owns o res

/-- A resource and its owner are replaced. -/
theorem Owned.set {server : Resources} {owners : List Registration} (h : Owned server owners)
    {o : Registration} {res : Resource} (howns : Owns o res) (i : ℕ) :
    Owned (server.set i res) (owners.set i o) := by
  refine ⟨by simpa using h.length, fun j k p hk hp => ?_⟩
  rw [List.getElem?_set] at hk hp
  split at hk
  · rw [if_pos ‹_›] at hp
    split at hk
    · split at hp
      · obtain rfl := Option.some.inj hk
        obtain rfl := Option.some.inj hp
        exact howns
      · cases hp
    · cases hk
  · rw [if_neg ‹_›] at hp
    exact h.owns j k p hk hp

/-- A resource is added with its owner. -/
theorem Owned.append {server : Resources} {owners : List Registration} (h : Owned server owners)
    {o : Registration} {res : Resource} (howns : Owns o res) :
    Owned (server ++ [res]) (owners ++ [o]) := by
  refine ⟨by simp [h.length], fun j k p hk hp => ?_⟩
  rw [List.getElem?_append] at hk hp
  rw [h.length] at hp
  split at hk
  · rw [if_pos ‹_›] at hp
    exact h.owns j k p hk hp
  · rw [if_neg ‹_›] at hp
    obtain rfl := List.mem_singleton.mp (List.mem_of_getElem? hk)
    obtain rfl := List.mem_singleton.mp (List.mem_of_getElem? hp)
    exact howns

/-- **A registration keeps the handlers with their owners.** -/
theorem Owned.step {server : Resources} {owners : List Registration} (h : Owned server owners)
    (hstored : ∀ res ∈ server, res.Stored) (hr : r.path.length < twoMaxPathSize) :
    Owned (twoRegisterResource server r).2 (ownersAfter server owners r) := by
  have htake : r.path.take twoMaxPathSize = r.path := List.take_of_length_le hr.le
  have hcut : ∀ res ∈ server, res.path.take twoMaxPathSize = res.path := fun res hres =>
    List.take_of_length_le (hstored res hres).path.le
  have hout := registers hstored hr
  rw [ownersAfter, htake]
  generalize twoRegisterResource server r = out at hout ⊢
  cases hout with
  | refused => exact h
  | @replaced a b res ct _ _ hs hpath hmethod hfirst =>
    -- the handler of the first resource for the path is replaced, and so is its owner
    subst hs
    have hres := hstored res (by simp)
    have hfind : (a ++ res :: b).findIdx? (fun k =>
        k.path.take twoMaxPathSize == r.path && k.method == r.method) = some a.length := by
      have hnone : a.findIdx? (fun k =>
          k.path.take twoMaxPathSize == r.path && k.method == r.method) = none := by
        rw [List.findIdx?_eq_none_iff]
        intro k hk
        simp [hcut k (by simp [hk]), hfirst k hk]
      rw [List.findIdx?_append, hnone, List.findIdx?_cons]
      simp [hpath, hmethod, hres.method, hr.le]
    have howns : Owns r { res with contentType := ct, handler := r.handler } := ⟨hpath.symm, rfl⟩
    rw [if_pos rfl, hfind]
    simpa using h.set howns a.length
  | added ha _ _ hnew =>
    have hfind : server.findIdx? (fun k =>
        k.path.take twoMaxPathSize == r.path && k.method == r.method) = none := by
      rw [List.findIdx?_eq_none_iff]
      intro k hk
      rw [hcut k hk, (hstored k hk).method, Bool.and_eq_false_imp, beq_iff_eq]
      exact fun hpath => by simpa using fun hget => hnew hget.symm k hk hpath
    rw [if_pos rfl, hfind]
    exact h.append ⟨rfl, rfl⟩

theorem owned_registry (h : Short rs) : Owned (registry rs) (owners rs) := by
  induction rs using List.reverseRecOn with
  | nil => exact ⟨rfl, fun i res o hres => by simp [registry] at hres⟩
  | append_singleton rs r ih =>
    rw [registry_snoc, owners_snoc]
    exact (ih h.left).step (registry_stored h.left) h.last

end Owners

/-! ## Dispatch -/

/-- The path of a request: up to the first `?`, and with a leading `/`. -/
def requestPath (path : Bytes) : Bytes :=
  if path.head? = some 47 then path.takeWhile (· != 63) else 47 :: path.takeWhile (· != 63)

/-- What is left of the path of a request in the field of a resource, with the characters counted in
32 bits. -/
def cutPath (path : Bytes) : Bytes :=
  let n := (path.takeWhile (· != 63)).length % 2 ^ 32
  if path.head? = some 47 ∧ path.length % 2 ^ 32 ≠ 0 then path.take (min n (twoMaxPathSize - 1))
  else 47 :: path.take (min n (twoMaxPathSize - 2))

/-- The methods that are supported. -/
def supportedMethods : List Bytes := allowedHttpMethods.filter httpHasMethodSupport

/-- The resource whose handler `http_handle_request` calls. -/
def uriResource (server : Resources) (method path : Bytes) : Option Resource :=
  if !httpHasMethodSupport method then none
  else findResource server method (parseUri path twoMaxPathSize)

/-- The response that the handler of a resource gives. -/
def Resource.response (res : Resource) (calls : ℕ) (method path : Bytes) (maxlen : ℕ) :
    HttpResponse :=
  let (contentLength, written) := res.handler calls method path
  let content := responseMemory written maxlen
  if contentLength < 0 then httpError content 500
  else ⟨200, some res.contentType, min contentLength.toNat maxlen, content⟩

/-- The stored resources with the registrations of their handlers. -/
def ownedResources (rs : List Registration) : List (Resource × Registration) :=
  (registry rs).zip (owners rs)

/-- The resource whose handler is called, with the registration of the handler. -/
def servedBy (rs : List Registration) (method path : Bytes) : Option (Resource × Registration) :=
  if !httpHasMethodSupport method then none
  else (ownedResources rs).find? fun p =>
    p.1.path.take twoMaxPathSize == (parseUri path twoMaxPathSize).take twoMaxPathSize &&
      p.1.method.isPrefixOf method

/-- The registration whose handler the first resource for a path has. -/
def firstOwner (rs : List Registration) (path : Bytes) : Option Registration :=
  ((ownedResources rs).find? fun p => p.1.path == path).map Prod.snd

/-- A handler is called only for the method and the path that it was registered for, a request whose
method is not a supported one gets 501, and one that matches no registered handler gets 404, both
without content. -/
structure DispatchExact (rs : List Registration) (method path : Bytes) : Prop where
  called : ∀ p, servedBy rs method path = some p →
    method = p.2.method ∧ requestPath path = p.2.path
  unsupported : ∀ calls content maxlen, method ∉ supportedMethods →
    (httpHandleRequest (registry rs) calls method path content maxlen).status = 501 ∧
      (httpHandleRequest (registry rs) calls method path content maxlen).contentLength = 0
  unmatched : ∀ calls content maxlen, method ∈ supportedMethods →
    (∀ o ∈ owners rs, ¬ (o.method = method ∧ o.path = requestPath path)) →
    (httpHandleRequest (registry rs) calls method path content maxlen).status = 404 ∧
      (httpHandleRequest (registry rs) calls method path content maxlen).contentLength = 0

section Dispatch

variable {server : Resources} {rs : List Registration} {method path content : Bytes}
  {calls maxlen : ℕ}

/-- The handler of the resource that is found is called, and none otherwise. -/
theorem httpHandleRequest_eq :
    httpHandleRequest server calls method path content maxlen =
      ((uriResource server method path).map fun res =>
        res.response calls method (parseUri path twoMaxPathSize) maxlen).getD
          (httpError content (if httpHasMethodSupport method then 404 else 501)) := by
  unfold httpHandleRequest uriResource
  cases httpHasMethodSupport method with
  | false => rfl
  | true =>
    rw [if_neg (by decide), if_neg (by decide)]
    dsimp only
    cases findResource server method (parseUri path twoMaxPathSize) <;> rfl

/-- `parse_uri` cuts the path of the request. -/
theorem parseUri_eq (path : Bytes) : parseUri path twoMaxPathSize = cutPath path := by
  have hsplit : path.length =
      (path.takeWhile (· != 63)).length + (path.dropWhile (· != 63)).length := by
    conv_lhs => rw [← List.takeWhile_append_dropWhile (p := (· != 63)) (l := path)]
    rw [List.length_append]
  have hlen : (path.length % 2 ^ 32 + 2 ^ 32 - (path.dropWhile (· != 63)).length % 2 ^ 32) % 2 ^ 32 =
      (path.takeWhile (· != 63)).length % 2 ^ 32 := by
    omega
  rw [parseUri, cutPath]
  simp only [hlen]
  by_cases hslash : path.head? = some 47 ∧ path.length % 2 ^ 32 ≠ 0
  · rw [if_pos hslash, if_neg (by tauto)]
    rfl
  · rw [if_neg hslash, if_pos (by tauto)]
    rfl

/-- A path that fits in the field of a resource, in a request of fewer than 2^32 characters, is not
cut. -/
theorem cutPath_of_lt (hlen : path.length < 2 ^ 32)
    (hpath : (requestPath path).length < twoMaxPathSize) : cutPath path = requestPath path := by
  have hprefix : path.take (path.takeWhile (· != 63)).length = path.takeWhile (· != 63) :=
    (List.prefix_iff_eq_take.mp (List.takeWhile_prefix _)).symm
  have hle : (path.takeWhile (· != 63)).length ≤ path.length := (List.takeWhile_prefix _).length_le
  rw [requestPath] at hpath ⊢
  rw [cutPath, Nat.mod_eq_of_lt hlen, Nat.mod_eq_of_lt (by omega)]
  by_cases hhead : path.head? = some 47
  · have hpos : path.length ≠ 0 := by
      rintro h0
      rw [List.length_eq_zero_iff.mp h0] at hhead
      cases hhead
    rw [if_pos hhead] at hpath ⊢
    rw [if_pos ⟨hhead, hpos⟩, min_eq_left (Nat.le_sub_one_of_lt hpath), hprefix]
  · rw [if_neg hhead, List.length_cons] at hpath
    rw [if_neg hhead, if_neg (fun h => hhead h.1), min_eq_left (by omega), hprefix]

theorem mem_supportedMethods : method ∈ supportedMethods ↔ method = methodGet := by
  have hlist : supportedMethods = [methodGet] := by decide
  rw [hlist, List.mem_singleton]

/-- The resource that is served is the one whose handler is called. -/
theorem servedBy_fst (h : Short rs) :
    (servedBy rs method path).map Prod.fst = uriResource (registry rs) method path := by
  rw [servedBy, uriResource]
  split
  · rfl
  · have hfst : (ownedResources rs).map Prod.fst = registry rs :=
      List.map_fst_zip (owned_registry h).length.ge
    rw [findResource]
    conv_rhs => rw [← hfst, List.find?_map]
    rfl

/-- What is known of a stored resource and its registration. -/
theorem mem_ownedResources (h : Short rs) {p : Resource × Registration} (hp : p ∈ ownedResources rs) :
    p.1.Stored ∧ Owns p.2 p.1 ∧ p.2 ∈ owners rs := by
  obtain ⟨i, hi⟩ := List.mem_iff_getElem?.mp hp
  obtain ⟨hres, ho⟩ := List.getElem?_zip_eq_some.mp hi
  exact ⟨registry_stored h _ (List.mem_of_getElem? hres), (owned_registry h).owns i _ _ hres ho,
    List.mem_of_getElem? ho⟩

/-- The search compares the beginnings of the method and of the path. -/
theorem servedBy_eq (h : Short rs) (hmethod : methodGet <+: method) :
    servedBy rs method path = (ownedResources rs).find? fun p => p.1.path == cutPath path := by
  have hsupport := httpHasMethodSupport_iff.mpr hmethod
  have hcut : (cutPath path).take twoMaxPathSize = cutPath path := by
    refine List.take_of_length_le ?_
    rw [cutPath]
    have h32 : twoMaxPathSize = 32 := rfl
    split
    · simp
    · simp
      omega
  rw [servedBy, hsupport, parseUri_eq, hcut]
  simp only [Bool.not_true, Bool.false_eq_true, if_false]
  refine List.find?_congr fun p hp => ?_
  have hres := (mem_ownedResources h hp).1
  rw [List.take_of_length_le hres.path.le, hres.method, List.isPrefixOf_iff_prefix.mpr hmethod,
    Bool.and_true]

/-- A request that calls no handler is answered with an error and no content. -/
theorem status_of_none (h : uriResource server method path = none) :
    (httpHandleRequest server calls method path content maxlen).status =
        (if httpHasMethodSupport method then 404 else 501) ∧
      (httpHandleRequest server calls method path content maxlen).contentLength = 0 := by
  rw [httpHandleRequest_eq, h]
  exact ⟨rfl, rfl⟩

/-- A request with a supported method is not answered with 501. -/
theorem status_ne_of_support (h : httpHasMethodSupport method = true) :
    (httpHandleRequest server calls method path content maxlen).status ≠ 501 := by
  rw [httpHandleRequest_eq, h]
  cases uriResource server method path with
  | none => exact (by decide : (404 : ℕ) ≠ 501)
  | some res =>
    rw [Option.map_some, Option.getD_some, Resource.response]
    dsimp only
    split
    · exact (by decide : (500 : ℕ) ≠ 501)
    · exact (by decide : (200 : ℕ) ≠ 501)

/-- The cases in which a request is dispatched by its method and path. -/
theorem DispatchExact.of_cases (h : Short rs) (hmethod : methodGet <+: method → method = methodGet)
    (hpath : method = methodGet → ∀ o ∈ firstOwner rs (cutPath path),
      cutPath path = requestPath path ∧ o.method = methodGet) :
    DispatchExact rs method path := by
  by_cases hget : method = methodGet
  · have hprefix : methodGet <+: method := hget ▸ List.prefix_rfl
    have hsupport := httpHasMethodSupport_iff.mpr hprefix
    have hfirst : ∀ p, servedBy rs method path = some p →
        method = p.2.method ∧ requestPath path = p.2.path ∧ p.2 ∈ owners rs := by
      intro p hp
      rw [servedBy_eq h hprefix] at hp
      obtain ⟨-, howns, hmem⟩ := mem_ownedResources h (List.mem_of_find?_eq_some hp)
      have heq : p.1.path = cutPath path := by simpa using List.find?_some hp
      obtain ⟨hcut, hmethod'⟩ := hpath hget p.2 (by rw [firstOwner, hp]; rfl)
      exact ⟨hget.trans hmethod'.symm, by rw [howns.path, heq, hcut], hmem⟩
    refine ⟨fun p hp => ⟨(hfirst p hp).1, (hfirst p hp).2.1⟩,
      fun _ _ _ hno => absurd (mem_supportedMethods.mpr hget) hno,
      fun calls content maxlen _ hno => ?_⟩
    -- a resource that is found would be one of the method and the path
    have hnone : uriResource (registry rs) method path = none := by
      rw [← servedBy_fst h]
      cases hserved : servedBy rs method path with
      | none => rfl
      | some p =>
        obtain ⟨hm, hp, hmem⟩ := hfirst p hserved
        exact absurd ⟨hm.symm, hp.symm⟩ (hno p.2 hmem)
    have hstatus := @status_of_none (registry rs) method path content calls maxlen hnone
    rwa [if_pos hsupport] at hstatus
  · have hsupport : ¬ httpHasMethodSupport method = true :=
      fun h => hget (hmethod (httpHasMethodSupport_iff.mp h))
    have hserved : servedBy rs method path = none := by
      rw [servedBy, if_pos (by simpa using hsupport)]
    have hnone : uriResource (registry rs) method path = none := by
      rw [← servedBy_fst h, hserved]
      rfl
    refine ⟨fun p hp => ?_, fun calls content maxlen _ => ?_,
      fun _ _ _ h => absurd (mem_supportedMethods.mp h) hget⟩
    · rw [hserved] at hp
      cases hp
    · have hstatus := @status_of_none (registry rs) method path content calls maxlen hnone
      rwa [if_neg hsupport] at hstatus

/-- **Dispatch of requests.** After every sequence of registrations, a request is dispatched by
exactly its method and path if and only if its method does not extend `GET`, and for a request with
the method `GET` the first resource for the cut path, if there is one, is one for the whole path and
has the handler of a registration for `GET`. -/
theorem dispatchExact_iff (h : Short rs) (method path : Bytes) :
    DispatchExact rs method path ↔
      (methodGet <+: method → method = methodGet) ∧
      (method = methodGet → ∀ o ∈ firstOwner rs (cutPath path),
        cutPath path = requestPath path ∧ o.method = methodGet) := by
  refine ⟨fun hexact => ⟨fun hprefix => ?_, fun hget o ho => ?_⟩, fun hc => .of_cases h hc.1 hc.2⟩
  · -- a method that extends `GET` passes for it
    by_contra hne
    have hstatus := hexact.unsupported 0 [] 0 (mt mem_supportedMethods.mp hne)
    exact status_ne_of_support (httpHasMethodSupport_iff.mpr hprefix) hstatus.1
  · have hprefix : methodGet <+: method := hget ▸ List.prefix_rfl
    obtain ⟨p, hp, rfl⟩ := Option.map_eq_some_iff.mp ho
    obtain ⟨-, howns, -⟩ := mem_ownedResources h (List.mem_of_find?_eq_some hp)
    have heq : p.1.path = cutPath path := by simpa using List.find?_some hp
    obtain ⟨hmethod, hpath⟩ := hexact.called p (by rw [servedBy_eq h hprefix, hp])
    exact ⟨by rw [hpath, howns.path, heq], hmethod.symm.trans hget⟩

/-- A resource for `/`. -/
def rootResource (handler : ℕ → Bytes → Bytes → ℤ × Bytes) : Registration :=
  ⟨methodGet, ascii "/", ascii "text/plain", handler⟩

theorem short_rootResource (handler : ℕ → Bytes → Bytes → ℤ × Bytes) :
    Short [rootResource handler] := by
  intro r hr
  rw [List.mem_singleton.mp hr]
  exact (by decide : (ascii "/").length < twoMaxPathSize)

/-- Resources for `/`, where a second registration replaces the first one, and for `/a`. -/
def threeResources : List Registration :=
  [⟨ascii "GETX", ascii "/", ascii "text/plain", fun _ _ _ => (0, [])⟩,
    rootResource fun _ _ _ => (1, []),
    ⟨methodGet, ascii "/a", ascii "text/plain", fun _ _ _ => (2, [])⟩]

/-- A request for `/` with parameters, one for a path that starts with another one, and one with an
unsupported method. -/
theorem dispatchExact_threeResources :
    ((firstOwner threeResources (ascii "/")).map fun o => (o.handler 0 [] []).1) = some 1 ∧
      DispatchExact threeResources methodGet (ascii "?a=1") ∧
      DispatchExact threeResources methodGet (ascii "/ab") ∧
      DispatchExact threeResources (ascii "POST") (ascii "/a") := by
  have h : Short threeResources := by decide
  refine ⟨by decide +kernel, (dispatchExact_iff h _ _).mpr ⟨fun _ => rfl, fun _ => ?_⟩,
    (dispatchExact_iff h _ _).mpr ⟨fun _ => rfl, fun _ => ?_⟩,
    (dispatchExact_iff h _ _).mpr (by decide +kernel)⟩
  · rw [cutPath_of_lt (by decide) (by decide)]
    decide +kernel
  · rw [cutPath_of_lt (by decide) (by decide)]
    decide +kernel

/-- A request with the method `GETX` is answered by the handler for `GET`. -/
theorem not_dispatchExact : ¬ ∀ rs method path, Short rs → DispatchExact rs method path := by
  intro h
  have hexact := h [rootResource fun _ _ _ => (0, [])] (ascii "GETX") (ascii "/")
    (short_rootResource _)
  have hno : ascii "GETX" ∉ supportedMethods := by decide
  have hstatus := (hexact.unsupported 0 [] 0 hno).1
  revert hstatus
  decide

end Dispatch

/-! ## Uniqueness -/

/-- The resources that are stored: no two have the same method and path, there are not too many of
them, a registration that succeeded is found until another one for the same method and path
succeeds, and one that failed has changed nothing. -/
structure Registered (rs : List Registration) : Prop where
  unique : (registry rs).Pairwise fun a b => ¬ (a.method = b.method ∧ a.path = b.path)
  bounded : (registry rs).length ≤ twoMaxResources
  found : ∀ pre r post, rs = pre ++ r :: post → (twoRegisterResource (registry pre) r).1 = 0 →
    (∀ mid r' rest, post = mid ++ r' :: rest → r'.method = r.method → r'.path = r.path →
      (twoRegisterResource (registry (pre ++ r :: mid)) r').1 ≠ 0) →
    ∃ res, findResource (registry rs) r.method r.path = some res ∧ res.path = r.path ∧
      res.handler = r.handler ∧ contentTypeAllowed r.contentType = some res.contentType
  kept : ∀ pre r post, rs = pre ++ r :: post → (twoRegisterResource (registry pre) r).1 = -1 →
    (twoRegisterResource (registry pre) r).2 = registry pre

/-- Two registrations for the same path, neither refused for its arguments, both have a method that
is supported as it is. -/
def Unmixed (rs : List Registration) : Prop :=
  rs.Pairwise fun r r' => r.Acceptable → r'.Acceptable → r.path = r'.path →
    r.method = methodGet ∧ r'.method = methodGet

section Unique

variable {rs : List Registration} {r r' : Registration} {server : Resources}

theorem Unmixed.init (h : Unmixed (rs ++ [r])) : Unmixed rs := (List.pairwise_append.mp h).1

/-- The path of a resource that is stored was registered. -/
theorem registry_path (h : Short rs) :
    ∀ res ∈ registry rs, ∃ r ∈ rs, r.Acceptable ∧ r.path = res.path := by
  induction rs using List.reverseRecOn with
  | nil => simp [registry]
  | append_singleton rs r ih =>
    have hold : ∀ res ∈ registry rs, ∃ k ∈ rs ++ [r], k.Acceptable ∧ k.path = res.path := by
      intro res hres
      obtain ⟨k, hk, hpath⟩ := ih h.left res hres
      exact ⟨k, List.mem_append_left _ hk, hpath⟩
    have hout := registers_at h
    rw [registry_snoc]
    -- a resource keeps the path of the registration it came from
    generalize twoRegisterResource (registry rs) r = out at hout
    cases hout with
    | refused => exact hold
    | replaced ha _ hs hpath _ _ =>
      intro k hk
      rw [hs] at hold
      rcases List.mem_append.mp hk with hk | hk
      · exact hold k (List.mem_append_left _ hk)
      · rcases List.mem_cons.mp hk with rfl | hk
        · exact ⟨r, by simp, ha, hpath.symm⟩
        · exact hold k (List.mem_append_right _ (List.mem_cons_of_mem _ hk))
    | added ha =>
      intro k hk
      rcases List.mem_append.mp hk with hk | hk
      · exact hold k hk
      · rw [List.mem_singleton.mp hk]
        exact ⟨r, by simp, ha, rfl⟩

/-- A resource is added only for a path that has none. -/
theorem path_ne_of_added (h : Short rs) (hu : Unmixed (rs ++ [r])) (ha : r.Acceptable)
    (hnew : r.method = methodGet → ∀ k ∈ registry rs, k.path ≠ r.path) :
    ∀ k ∈ registry rs, k.path ≠ r.path := by
  intro k hk hpath
  obtain ⟨r₀, hr₀, ha₀, hpath₀⟩ := registry_path h k hk
  have hboth := (List.pairwise_append.mp hu).2.2 r₀ hr₀ r (by simp) ha₀ ha (hpath₀.trans hpath)
  exact hnew hboth.2 k hk hpath

theorem registry_unique (h : Short rs) (hu : Unmixed rs) :
    (registry rs).Pairwise fun a b => a.path ≠ b.path := by
  induction rs using List.reverseRecOn with
  | nil => exact .nil
  | append_singleton rs r ih =>
    have hold := ih h.left hu.init
    have hout := registers_at h
    rw [registry_snoc]
    -- a replacement keeps the path, an addition brings one that was not there
    generalize twoRegisterResource (registry rs) r = out at hout
    cases hout with
    | refused => exact hold
    | replaced _ _ hs _ _ _ =>
      rw [hs, List.pairwise_append, List.pairwise_cons] at hold
      rw [List.pairwise_append, List.pairwise_cons]
      refine ⟨hold.1, hold.2.1, fun a ha b hb => ?_⟩
      rcases List.mem_cons.mp hb with rfl | hb
      · have hne := hold.2.2 a ha _ List.mem_cons_self
        exact hne
      · exact hold.2.2 a ha b (List.mem_cons_of_mem _ hb)
    | added ha _ _ hnew =>
      rw [List.pairwise_append]
      refine ⟨hold, List.pairwise_singleton _ _, fun a hmem b hb => ?_⟩
      rw [List.mem_singleton.mp hb]
      exact path_ne_of_added h.left hu ha hnew a hmem

/-- The first resource for the path of a registration is the one it stored. -/
def Finds (server : Resources) (r : Registration) : Prop :=
  ∃ res, (server.find? fun res => res.path == r.path) = some res ∧ res.path = r.path ∧
    res.handler = r.handler ∧ contentTypeAllowed r.contentType = some res.contentType

/-- A registration that succeeds is found. -/
theorem finds_of_success (h : Short (rs ++ [r])) (hu : Unmixed (rs ++ [r]))
    (hrc : (twoRegisterResource (registry rs) r).1 = 0) : Finds (registry (rs ++ [r])) r := by
  have hout := registers_at h
  rw [registry_snoc]
  generalize twoRegisterResource (registry rs) r = out at hout hrc
  have hskip : ∀ a : Resources, (∀ k ∈ a, k.path ≠ r.path) →
      a.find? (fun res => res.path == r.path) = none := by
    intro a ha
    rw [List.find?_eq_none]
    exact fun k hk heq => ha k hk (beq_iff_eq.mp heq)
  cases hout with
  | refused => exact absurd hrc (by simp)
  | @replaced a b res ct _ hct hs hpath _ hfirst =>
    refine ⟨{ res with contentType := ct, handler := r.handler }, ?_, hpath, rfl, hct⟩
    rw [List.find?_append, hskip _ hfirst, Option.none_or]
    exact List.find?_cons_of_pos (by simpa using hpath)
  | @added ct ha hct _ hnew =>
    refine ⟨⟨r.path, methodGet, ct, r.handler⟩, ?_, rfl, rfl, hct⟩
    rw [List.find?_append, hskip _ (path_ne_of_added h.left hu ha hnew), Option.none_or]
    exact List.find?_cons_of_pos (by simp)

/-- A registration for another path leaves what is found for a path. -/
theorem Finds.step {out : ℤ × Resources} (h : Finds server r) (hout : Registers server r' out)
    (hne : r'.path = r.path → out.2 = server) : Finds out.2 r := by
  by_cases hpath : r'.path = r.path
  · rwa [hne hpath]
  · obtain ⟨res, hfind, hres⟩ := h
    refine ⟨res, ?_, hres⟩
    rw [← hfind]
    cases hout with
    | refused => rfl
    | @replaced a b res₀ ct _ _ hs hpath₀ _ _ =>
      have hskip : (res₀.path == r.path) = false := by
        rw [hpath₀]
        simpa using hpath
      rw [hs, List.find?_append, List.find?_append, List.find?_cons, List.find?_cons]
      simp only [hskip]
    | added =>
      rw [List.find?_append, hfind]
      rfl

/-- A registration that succeeded is found until another one for the same method and path does. -/
theorem finds_registry {pre post : List Registration} (h : Short (pre ++ r :: post))
    (hu : Unmixed (pre ++ r :: post)) (hrc : (twoRegisterResource (registry pre) r).1 = 0)
    (hlater : ∀ mid r' rest, post = mid ++ r' :: rest → r'.method = r.method → r'.path = r.path →
      (twoRegisterResource (registry (pre ++ r :: mid)) r').1 ≠ 0) :
    Finds (registry (pre ++ r :: post)) r := by
  induction post using List.reverseRecOn with
  | nil => exact finds_of_success h hu hrc
  | append_singleton post r' ih =>
    have hassoc : pre ++ r :: (post ++ [r']) = (pre ++ r :: post) ++ [r'] := by simp
    rw [hassoc] at h hu ⊢
    have hold : Finds (registry (pre ++ r :: post)) r := by
      refine ih h.left hu.init fun mid k rest hpost => ?_
      exact hlater mid k (rest ++ [r']) (by simp [hpost])
    rw [registry_snoc]
    refine hold.step (registers_at h) fun hpath => ?_
    have hout := registers_at h
    have hfail := hlater post r' [] rfl
    -- a success for the same path would be one for the same method
    have hmethod : r'.Acceptable → r'.method = r.method := by
      intro ha'
      have ha : r.Acceptable := (registers_at h.left).acceptable hrc
      have hboth := (List.pairwise_append.mp hu).2.2 r (by simp) r' (by simp) ha ha' hpath.symm
      exact hboth.2.trans hboth.1.symm
    generalize twoRegisterResource (registry (pre ++ r :: post)) r' = out at hout hfail ⊢
    cases hout with
    | refused => rfl
    | replaced ha => exact absurd rfl (hfail (hmethod ha) hpath)
    | added ha => exact absurd rfl (hfail (hmethod ha) hpath)

/-- **The table of resources** after every sequence of registrations in which two registrations for
one path both have the method `GET`. -/
theorem registered_of_unmixed (h : Short rs) (hu : Unmixed rs) : Registered rs where
  unique := (registry_unique h hu).imp fun hne heq => hne heq.2
  bounded := length_registry_le h
  found := by
    rintro pre r post rfl hrc hlater
    obtain ⟨res, hfind, hres⟩ := finds_registry h hu hrc hlater
    refine ⟨res, ?_, hres⟩
    have hstored := registry_stored h
    have hmethod : methodGet <+: r.method :=
      httpHasMethodSupport_iff.mp ((registers_at h).acceptable hrc).method
    rw [← hfind, findResource]
    refine List.find?_congr fun k hk => ?_
    have hshort : r.path.length < twoMaxPathSize := h r (by simp)
    rw [List.take_of_length_le (hstored k hk).path.le, List.take_of_length_le hshort.le,
      (hstored k hk).method, List.isPrefixOf_iff_prefix.mpr hmethod, Bool.and_true]
  kept := by
    rintro pre r post rfl hrc
    have hout := registers_at h
    generalize twoRegisterResource (registry pre) r = out at hout hrc ⊢
    cases hout with
    | refused => rfl
    | replaced => exact absurd hrc (by simp)
    | added => exact absurd hrc (by simp)

/-- A resource that is registered again. -/
theorem registered_replaced :
    Registered [rootResource fun _ _ _ => (0, []), rootResource fun _ _ _ => (1, [])] := by
  refine registered_of_unmixed ?_ ?_
  · intro r hr
    simp only [List.mem_cons, List.not_mem_nil, or_false] at hr
    rcases hr with rfl | rfl
    · exact short_rootResource _ _ List.mem_cons_self
    · exact short_rootResource _ _ List.mem_cons_self
  · exact List.pairwise_pair.mpr fun _ _ _ => ⟨rfl, rfl⟩

/-- A resource registered for `GETX` and its path once more: both are stored for `GET`. -/
theorem not_registered : ¬ ∀ rs, Short rs → Registered rs := by
  intro h
  have hreg := h [⟨ascii "GETX", ascii "/", ascii "text/plain", fun _ _ _ => (0, [])⟩,
    ⟨ascii "GETX", ascii "/", ascii "text/plain", fun _ _ _ => (1, [])⟩] (by decide)
  exact absurd hreg.unique (by decide)

end Unique

end Two
