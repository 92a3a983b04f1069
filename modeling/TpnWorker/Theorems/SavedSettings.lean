import TpnWorker.Bootstrap

/-! What becomes of a saved setting at the next start. The remote defaults are set after the `.env` file is loaded, so they
    win over what was saved; and an update replaces the lines that spell its variable as it does itself, so a line
    in another spelling behind them wins as well. -/

namespace TpnWorker
open Lines

/-- The value that a line gives to the variable. -/
def Dotenv.valueOn (D : Dotenv) (key : EnvKey) (line : List Char) : Option String := (D.assigns line).bind (valueFor key.name)

/-- A line that concerns a variable: one that an update replaces, or one that assigns it in another spelling. -/
inductive Mention where
  | own (value : Option String)
  | other (value : String)
deriving DecidableEq

def Mention.value : Mention → Option String
  | own value => value
  | other value => some value

/-- What a line has to do with the variable. -/
def Dotenv.mention (D : Dotenv) (key : EnvKey) (line : List Char) : Option Mention :=
  if key.onLine line then some (.own (D.valueOn key line)) else (D.valueOn key line).map .other

/-- The lines that concern a variable, in order. -/
def Dotenv.mentions (D : Dotenv) (key : EnvKey) (content : String) : List Mention :=
  (lines content.toList).filterMap (D.mention key)

/-- The file has lines that an update replaces, but the last line that concerns the variable is one that it does not
    replace, and assigns it another value. -/
def Shadowed (D : Dotenv) (content : String) (key : EnvKey) (v : String) : Prop :=
  (lines content.toList).any key.onLine = true ∧ ∃ x, x ≠ v ∧ (D.mentions key content).getLast? = some (.other x)

/-- The last value that the remote body has for the setting. -/
def remoteValue (body : Option String) (k : RemoteKey) : Option String :=
  body.bind fun body => lastValue ((lines body.toList).filterMap remoteAssignment) k.key.name

/-- The texts of the request are single lines. -/
def ConfigUpdateRequest.SingleLine (req : ConfigUpdateRequest) : Prop :=
  ∀ field ∈ req.texts, ∀ v, field.2 = some v → '\n' ∉ v.toList

/-- The variables and values that the request stores, in order. -/
def ConfigUpdateRequest.stored (req : ConfigUpdateRequest) : List (EnvKey × String) :=
  (req.texts.filterMap fun field => field.2.map fun v => (field.1, v)) ++
    req.ports.filterMap fun field => field.2.map fun port => (field.1, Decimal.display port.toNat)

def storeAll (content : String) (stored : List (EnvKey × String)) : String :=
  stored.foldl (fun content a => updateEnvValue content a.1 a.2) content

/-! ### The handler -/

section Handler
variable {io : EnvKey → Except EnvFault Unit} {s : Updating} {content content' : String} {req : ConfigUpdateRequest}
  {response : AdminResponse}

/-- What a step of the handler does if no error is recorded after it. -/
def StepStores {F : Type} (step : Updating → F → Updating) (stored : F → Option (EnvKey × String)) : Prop :=
  ∀ s field, (step s field).errors = [] → s.errors = [] ∧
    (step s field).content = storeAll s.content (stored field).toList ∧
    (step s field).updated = s.updated ++ (stored field).toList.map (·.1.name)

theorem Updating.store_ok {key : EnvKey} {value : String} (h : (s.store io key value).errors = []) :
    s.errors = [] ∧ (s.store io key value).content = updateEnvValue s.content key value ∧
      (s.store io key value).updated = s.updated ++ [key.name] := by
  rw [Updating.store] at h ⊢
  cases hio : io key with
  | ok =>
    rw [hio] at h
    exact ⟨h, rfl, rfl⟩
  | error e =>
    rw [hio] at h
    exact absurd h (by simp)

theorem storeText_stores : StepStores (Updating.storeText io) fun field => field.2.map fun v => (field.1, v) := by
  rintro s ⟨key, _ | v⟩ h
  · exact ⟨h, rfl, (List.append_nil _).symm⟩
  · exact Updating.store_ok h

theorem storePort_stores :
    StepStores (Updating.storePort io) fun field => field.2.map fun port => (field.1, Decimal.display port.toNat) := by
  rintro s ⟨key, _ | port⟩ h
  · exact ⟨h, rfl, (List.append_nil _).symm⟩
  · simp only [Updating.storePort] at h ⊢
    cases hport : validatePort port key.name with
    | ok =>
      rw [hport] at h
      exact Updating.store_ok h
    | error e =>
      rw [hport] at h
      exact absurd h (by simp)

theorem foldl_stores {F : Type} {step : Updating → F → Updating} {stored : F → Option (EnvKey × String)}
    (hstep : StepStores step stored) (fields : List F) (h : (fields.foldl step s).errors = []) :
    s.errors = [] ∧ (fields.foldl step s).content = storeAll s.content (fields.filterMap stored) ∧
      (fields.foldl step s).updated = s.updated ++ (fields.filterMap stored).map (·.1.name) := by
  induction fields generalizing s with
  | nil => exact ⟨h, rfl, (List.append_nil _).symm⟩
  | cons field fields ih =>
    obtain ⟨herrors, hcontent, hupdated⟩ := ih h
    obtain ⟨herrors', hcontent', hupdated'⟩ := hstep s field herrors
    refine ⟨herrors', ?_, ?_⟩
    · rw [List.foldl_cons, hcontent, hcontent']
      cases hfield : stored field with
      | none => rw [List.filterMap_cons_none hfield]; rfl
      | some a => rw [List.filterMap_cons_some hfield]; rfl
    · rw [List.foldl_cons, hupdated, hupdated', List.append_assoc]
      cases hfield : stored field with
      | none => rw [List.filterMap_cons_none hfield]; rfl
      | some a => rw [List.filterMap_cons_some hfield]; rfl

/-- A request that succeeds has stored all its fields, and promises that they take effect after a restart. -/
theorem updateConfig_ok (h : updateConfig io content req = (response, content')) (hstatus : response.status = 200) :
    content' = storeAll content req.stored ∧ response = ⟨200, true,
      "已更新: " ++ ", ".intercalate (req.stored.map (·.1.name)) ++ "，重启后生效", some (req.stored.map (·.1.name))⟩ := by
  simp only [updateConfig] at h
  split at h
  · cases h
    cases hstatus
  · next herrors =>
    obtain ⟨htexts, hcontent, hupdated⟩ := foldl_stores storePort_stores _ (not_not.mp herrors)
    obtain ⟨-, hcontent', hupdated'⟩ := foldl_stores storeText_stores _ htexts
    have hstored : storeAll (storeAll content (req.texts.filterMap fun field => field.2.map fun v => (field.1, v)))
        (req.ports.filterMap fun field => field.2.map fun port => (field.1, Decimal.display port.toNat)) =
        storeAll content req.stored := by
      rw [storeAll, storeAll, storeAll, ConfigUpdateRequest.stored, List.foldl_append]
    split at h
    · cases h
      cases hstatus
    · cases h
      rw [hupdated, hupdated', hcontent, hcontent', hstored, ConfigUpdateRequest.stored, List.map_append]
      exact ⟨rfl, rfl⟩

end Handler

/-! ### What the updates do to the lines of a variable -/

section Mentions
variable {D : Dotenv} {key key' : EnvKey} {line : List Char} {content : String} {value v : String}

theorem exists_trim_of_onLine (h : key.onLine line = true) :
    ∃ lead rest, trim line = lead ++ '=' :: rest ∧ '=' ∉ lead ∧ (lead = key.name.toList ∨ lead = '#' :: ' ' :: key.name.toList) := by
  rw [EnvKey.onLine, Bool.or_eq_true, List.isPrefixOf_iff_prefix, List.isPrefixOf_iff_prefix] at h
  rcases h with ⟨rest, hrest⟩ | ⟨rest, hrest⟩
  · refine ⟨_, rest, ?_, key.no_assign, Or.inl rfl⟩
    rw [← hrest, ← assignment_append]
    rfl
  · refine ⟨_, rest, ?_, by simpa using key.no_assign, Or.inr rfl⟩
    rw [← hrest, List.cons_append, List.cons_append, ← assignment_append]
    rfl

/-- A line belongs to one variable at most. -/
theorem eq_of_onLine (h : key.onLine line = true) (h' : key'.onLine line = true) : key = key' := by
  obtain ⟨lead, rest, htrim, hlead, hkey⟩ := exists_trim_of_onLine h
  obtain ⟨lead', rest', htrim', hlead', hkey'⟩ := exists_trim_of_onLine h'
  have hsplit := splitOnce_append (b := rest) hlead
  rw [← htrim, htrim', splitOnce_append hlead'] at hsplit
  cases hsplit
  have hhash : ∀ (key : EnvKey) (cs : List Char), key.name.toList ≠ '#' :: cs := fun key cs heq =>
    (key.head_plain (congrArg List.head? heq)).2 rfl
  rcases hkey with rfl | rfl <;> rcases hkey' with hkey' | hkey'
  · exact EnvKey.ext (String.toList_inj.mp hkey')
  · exact absurd hkey' (hhash key _)
  · exact absurd hkey'.symm (hhash key' _)
  · exact EnvKey.ext (String.toList_inj.mp (List.cons.inj (List.cons.inj hkey').2).2)

theorem mention_stripCr : D.mention key (stripCr line) = D.mention key line := by
  rw [Dotenv.mention, Dotenv.mention, Dotenv.valueOn, Dotenv.valueOn, onLine_stripCr, D.cr]

theorem mention_nil : D.mention key [] = none := by
  rw [Dotenv.mention, Dotenv.valueOn, onLine_nil, D.blank]
  rfl

theorem mention_of_onLine (hplain : key'.Plain) (hne : key' ≠ key) (h : key'.onLine line = true) : D.mention key line = none := by
  have hkey : ¬key.onLine line = true := fun hkey => hne (eq_of_onLine h hkey)
  rw [Dotenv.mention, if_neg hkey, Option.map_eq_none_iff, Dotenv.valueOn]
  cases hassigns : D.assigns line with
  | none => rfl
  | some a =>
    obtain ⟨name, x⟩ := a
    have hname := D.own key' line name x hplain h hassigns
    exact if_neg fun heq : name = key.name => hne (EnvKey.ext (hname.symm.trans heq))

theorem mentions_updateEnvValue (hvalue : '\n' ∉ value.toList) :
    D.mentions key (updateEnvValue content key' value) = (updatedLines content key' value).filterMap (D.mention key) :=
  filterMap_updateEnvValue (fun _ => mention_stripCr) mention_nil hvalue

/-- The update of another variable. -/
theorem mentions_of_ne (hplain : key'.Plain) (hne : key' ≠ key) (hvalue : '\n' ∉ value.toList) :
    D.mentions key (updateEnvValue content key' value) = D.mentions key content := by
  rw [mentions_updateEnvValue hvalue, filterMap_updatedLines fun _ => mention_of_onLine hplain hne, Dotenv.mentions]

/-- The mention with the new value, if it is one of the variable's own lines. -/
def Mention.renew (v : String) : Mention → Mention
  | own _ => own (some v)
  | other x => other x

/-- The update of the variable itself. -/
theorem mentions_self (hliteral : D.assigns (key.assignment v.toList) = some (key.name, v)) (hvalue : '\n' ∉ v.toList) :
    D.mentions key (updateEnvValue content key v) = (D.mentions key content).map (Mention.renew v) ++
      if (lines content.toList).any key.onLine then [] else [.own (some v)] := by
  have hnew : D.mention key (key.assignment v.toList) = some (.own (some v)) := by
    rw [Dotenv.mention, if_pos onLine_assignment, Dotenv.valueOn, hliteral, Option.bind_some, valueFor, if_pos rfl]
  have hmap : ((lines content.toList).map (updatedLine key v.toList)).filterMap (D.mention key) =
      (D.mentions key content).map (Mention.renew v) := by
    rw [List.filterMap_map, Dotenv.mentions, List.map_filterMap]
    refine List.filterMap_congr fun line _ => ?_
    rw [Function.comp_apply, updatedLine]
    split
    · next hline =>
      rw [hnew, Dotenv.mention, if_pos hline]
      rfl
    · next hline =>
      rw [Dotenv.mention, if_neg hline]
      cases D.valueOn key line <;> rfl
  rw [mentions_updateEnvValue hvalue, updatedLines]
  split
  · rw [hmap, List.append_nil]
  · rw [List.filterMap_append, hmap, List.filterMap_cons_some hnew, List.filterMap_nil]

theorem mentions_storeAll {stored : List (EnvKey × String)}
    (h : ∀ a ∈ stored, a.1.Plain ∧ a.1 ≠ key ∧ '\n' ∉ a.2.toList) :
    D.mentions key (storeAll content stored) = D.mentions key content := by
  induction stored generalizing content with
  | nil => rfl
  | cons a stored ih =>
    obtain ⟨hplain, hne, hvalue⟩ := h a List.mem_cons_self
    have hrest : D.mentions key (storeAll (updateEnvValue content a.1 a.2) stored) = D.mentions key (updateEnvValue content a.1 a.2) :=
      ih fun b hb => h b (List.mem_cons_of_mem _ hb)
    exact hrest.trans (mentions_of_ne hplain hne hvalue)

/-- The file has a line of its own for the variable exactly if one of its mentions is such a line. -/
theorem any_onLine_iff : (lines content.toList).any key.onLine = true ↔ ∃ x, .own x ∈ D.mentions key content := by
  rw [List.any_eq_true]
  constructor
  · rintro ⟨line, hline, hkey⟩
    exact ⟨_, List.mem_filterMap.mpr ⟨line, hline, if_pos hkey⟩⟩
  · rintro ⟨x, hx⟩
    obtain ⟨line, hline, hmention⟩ := List.mem_filterMap.mp hx
    refine ⟨line, hline, ?_⟩
    by_contra hkey
    rw [Dotenv.mention, if_neg hkey, Option.map_eq_some_iff] at hmention
    obtain ⟨_, -, hother⟩ := hmention
    cases hother

/-- The value after a load is the one of the last mention that has one. -/
theorem lastValue_eq : lastValue ((lines content.toList).filterMap D.assigns) key.name =
    ((D.mentions key content).filterMap Mention.value).getLast? := by
  rw [lastValue, List.filterMap_filterMap, Dotenv.mentions, List.filterMap_filterMap]
  congr 1
  refine List.filterMap_congr fun line _ => ?_
  rw [Dotenv.mention]
  split
  · rfl
  · rw [Dotenv.valueOn]
    cases (D.assigns line).bind (valueFor key.name) <;> rfl

/-- The value of a mention, which is `v` if it is one of the variable's own lines. -/
def Mention.renewed (v : String) : Mention → String
  | own _ => v
  | other x => x

theorem filterMap_renew (ms : List Mention) : (ms.map (Mention.renew v)).filterMap Mention.value = ms.map (Mention.renewed v) := by
  induction ms with
  | nil => rfl
  | cons m ms ih =>
    rw [List.map_cons, List.map_cons, ← ih]
    cases m <;> rfl

/-- After the update of the variable itself, the last mention has the new value unless another spelling shadows it. -/
theorem exists_value_self (hliteral : D.assigns (key.assignment v.toList) = some (key.name, v)) (hvalue : '\n' ∉ v.toList) :
    ∃ x, ((D.mentions key (updateEnvValue content key v)).filterMap Mention.value).getLast? = some x ∧
      (x = v ↔ ¬Shadowed D content key v) := by
  rw [mentions_self hliteral hvalue, List.filterMap_append, filterMap_renew]
  split
  · next hfound =>
    obtain ⟨y, hy⟩ := any_onLine_iff.mp hfound
    have hlast := List.getLast?_eq_some_getLast (List.ne_nil_of_mem hy)
    generalize (D.mentions key content).getLast (List.ne_nil_of_mem hy) = m at hlast
    refine ⟨m.renewed v, by rw [List.filterMap_nil, List.append_nil, List.getLast?_map, hlast]; rfl, ?_⟩
    rw [Shadowed, and_iff_right hfound, hlast]
    cases m with
    | own z =>
      refine iff_of_true rfl ?_
      rintro ⟨x, -, hx⟩
      cases hx
    | other z =>
      constructor
      · rintro heq ⟨x, hne, hx⟩
        cases hx
        exact hne heq
      · intro hnot
        by_contra hne
        exact hnot ⟨z, hne, rfl⟩
  · next hfound =>
    have hone : [Mention.own (some v)].filterMap Mention.value = [v] := rfl
    exact ⟨v, by rw [hone, List.getLast?_concat], iff_of_true rfl fun hshadowed => hfound hshadowed.1⟩

end Mentions

/-! ### A request -/

section Request
variable {req : ConfigUpdateRequest} {k : RemoteKey} {v : String}

/-- The variables of the request's fields. -/
def fieldKeys : List EnvKey :=
  [.miningPoolUrl, .paymentAddressEvm, .paymentAddressBittensor, .serverPublicPort, .socks5Port, .httpProxyPort,
    .wireguardServerPort]

theorem fieldKeys_plain {key : EnvKey} (h : key ∈ fieldKeys) : key.Plain := by
  have hall : fieldKeys.all fun key => key.name.toList.all fun c => c.isAlphanum || decide (c = '_') := by decide +kernel
  intro c hc
  have hplain := List.all_eq_true.mp (List.all_eq_true.mp hall key h) c hc
  rwa [Bool.or_eq_true, decide_eq_true_eq] at hplain

theorem filterMap_fields {α : Type} (g : α → String) (fields : List (EnvKey × Option α)) :
    ((fields.filterMap fun field => field.2.map fun v => (field.1, g v)).map Prod.fst).Sublist (fields.map Prod.fst) := by
  induction fields with
  | nil => exact List.Sublist.refl _
  | cons field fields ih =>
    obtain ⟨key, _ | v⟩ := field
    · exact ih.cons key
    · exact ih.cons_cons key

theorem stored_keys (req : ConfigUpdateRequest) : (req.stored.map Prod.fst).Sublist fieldKeys := by
  have hkeys : fieldKeys = req.texts.map Prod.fst ++ req.ports.map Prod.fst := rfl
  rw [hkeys, ConfigUpdateRequest.stored, List.map_append]
  exact (filterMap_fields id req.texts).append (filterMap_fields _ req.ports)

theorem stored_single_line (h : req.SingleLine) {a : EnvKey × String} (ha : a ∈ req.stored) : '\n' ∉ a.2.toList := by
  rcases List.mem_append.mp ha with ha | ha
  · obtain ⟨field, hfield, hvalue⟩ := List.mem_filterMap.mp ha
    obtain ⟨v, hv, rfl⟩ := Option.map_eq_some_iff.mp hvalue
    exact h field hfield v hv
  · obtain ⟨field, -, hvalue⟩ := List.mem_filterMap.mp ha
    obtain ⟨port, -, rfl⟩ := Option.map_eq_some_iff.mp hvalue
    have hdigits : (Decimal.display port.toNat).toList = Nat.toDigits 10 port.toNat := String.toList_ofList
    rw [hdigits]
    exact fun hmem => absurd (Nat.isDigit_of_mem_toDigits (by omega) (by omega) hmem) (by decide)

theorem mem_stored (h : k.requested req = some v) : (k.key, v) ∈ req.stored := by
  refine List.mem_append_left _ (List.mem_filterMap.mpr ⟨(k.key, some v), ?_, rfl⟩)
  cases k <;> simp_all [RemoteKey.requested, RemoteKey.key, ConfigUpdateRequest.texts]

/-- The last mention of a setting after all fields of the request are stored. -/
theorem exists_value_storeAll {D : Dotenv} (content : String) (h : k.requested req = some v) (hlines : req.SingleLine)
    (hliteral : D.assigns (k.key.assignment v.toList) = some (k.key.name, v)) :
    ∃ x, ((D.mentions k.key (storeAll content req.stored)).filterMap Mention.value).getLast? = some x ∧
      (x = v ↔ ¬Shadowed D content k.key v) := by
  obtain ⟨before, after, hstored⟩ := List.append_of_mem (mem_stored h)
  have hnodup : (req.stored.map Prod.fst).Nodup := (stored_keys req).nodup (by decide)
  have hvalue : ∀ a ∈ req.stored, a.1.Plain ∧ '\n' ∉ a.2.toList := fun a ha =>
    ⟨fieldKeys_plain ((stored_keys req).subset (List.mem_map_of_mem ha)), stored_single_line hlines ha⟩
  rw [hstored, List.map_append, List.map_cons, List.nodup_append] at hnodup
  obtain ⟨-, hafter, hbefore⟩ := hnodup
  rw [hstored] at hvalue ⊢
  have hsplit : storeAll content (before ++ (k.key, v) :: after) =
      storeAll (updateEnvValue (storeAll content before) k.key v) after := by
    rw [storeAll, List.foldl_append, List.foldl_cons]
    rfl
  have hrest : ∀ a ∈ after, a.1.Plain ∧ a.1 ≠ k.key ∧ '\n' ∉ a.2.toList := by
    intro a ha
    obtain ⟨hplain, hline⟩ := hvalue a (List.mem_append_right _ (List.mem_cons_of_mem _ ha))
    have hkey : a.1 ∈ after.map Prod.fst := List.mem_map_of_mem ha
    exact ⟨hplain, fun heq => (List.nodup_cons.mp hafter).1 (heq ▸ hkey), hline⟩
  have hfirst : ∀ a ∈ before, a.1.Plain ∧ a.1 ≠ k.key ∧ '\n' ∉ a.2.toList := by
    intro a ha
    obtain ⟨hplain, hline⟩ := hvalue a (List.mem_append_left _ ha)
    exact ⟨hplain, hbefore a.1 (List.mem_map_of_mem ha) k.key List.mem_cons_self, hline⟩
  have hshadowed : Shadowed D (storeAll content before) k.key v ↔ Shadowed D content k.key v := by
    rw [Shadowed, Shadowed, any_onLine_iff, any_onLine_iff, mentions_storeAll hfirst]
  rw [hsplit, mentions_storeAll hrest, ← hshadowed]
  exact exists_value_self hliteral (hvalue _ (List.mem_append_right _ List.mem_cons_self)).2

/-- The start takes the remote value first, then the one of the file. -/
theorem startConfig_eq (D : Dotenv) (dir : String) (env : Env) (content : String) (body : Option String) (k : RemoteKey) :
    startConfig D dir env content body k = (((remoteValue body k).or
      ((D.mentions k.key content).filterMap Mention.value).getLast?).or (env k.key.name)).getD k.default := by
  have hpath : k.key.name ≠ "SQLITE_PATH" := by cases k <;> decide
  have hload : loadEnv D dir env content k.key.name =
      (((D.mentions k.key content).filterMap Mention.value).getLast?).or (env k.key.name) := by
    rw [← lastValue_eq, ← setVars_apply]
    simp only [loadEnv]
    split
    · rw [Function.update_of_ne hpath]
    · rfl
  rw [startConfig, configured, Option.or_assoc, ← hload]
  cases body with
  | none => rfl
  | some body => rw [fetchRemoteDefaults, setVars_apply]; rfl

end Request

/-- A setting that a request has saved is in force after the next start exactly if the remote body has that value for it, or
    has none and no line in another spelling shadows the saved one. -/
theorem saved_setting_survives_iff (D : Dotenv) (dir : String) (env : Env) (io : EnvKey → Except EnvFault Unit)
    (content content' : String) (req : ConfigUpdateRequest) (response : AdminResponse) (body : Option String) (k : RemoteKey)
    (v : String) (hupdate : updateConfig io content req = (response, content')) (hreported : response.status = 200)
    (hsaved : k.requested req = some v) (hlines : req.SingleLine)
    (hliteral : D.assigns (k.key.assignment v.toList) = some (k.key.name, v)) :
    startConfig D dir env content' body k = v ↔
      remoteValue body k = some v ∨ remoteValue body k = none ∧ ¬Shadowed D content k.key v := by
  obtain ⟨rfl, -⟩ := updateConfig_ok hupdate hreported
  rw [startConfig_eq]
  cases hremote : remoteValue body k with
  | some x =>
    rw [Option.some_or, Option.some_or, Option.getD_some]
    simp
  | none =>
    obtain ⟨x, hx, hiff⟩ := exists_value_storeAll content hsaved hlines hliteral
    rw [Option.none_or, hx, Option.some_or, Option.getD_some, hiff]
    simp

/-! ### A payment address -/

def plainAssigns (line : List Char) : Option (String × String) :=
  let text := trim line
  if text.head? = some '#' then none
  else
    match splitOnce '=' text with
    | none => none
    | some (name, value) =>
      if name.all fun c => c.isAlphanum || c = '_' then some (String.ofList name, String.ofList value) else none

/-- Files without quotes, substitutions and `export`. -/
def Dotenv.plain : Dotenv where
  assigns := plainAssigns
  blank := rfl
  cr line := by simp only [plainAssigns, trim_stripCr]
  own key line name value hplain honLine h := by
    obtain ⟨lead, rest, htrim, hlead, hkey⟩ := exists_trim_of_onLine honLine
    simp only [plainAssigns, htrim, splitOnce_append hlead] at h
    rcases hkey with rfl | rfl
    · split at h
      · cases h
      · split at h
        · cases h
          exact String.ofList_toList
        · cases h
    · cases h

def sampleConfig : String :=
  "MINING_POOL_URL=http://157.90.237.67:3000\nPAYMENT_ADDRESS_EVM=0x1c89cb81123903Af1ecbbf3Edd688EfEDE119e12\n"

/-- The operator of a worker enters an address of its own. -/
def ownAddress : ConfigUpdateRequest :=
  ⟨none, some "0x52908400098527886E0F7030069857D2E4169EE7", none, none, none, none, none⟩

/-- The address is saved, but after the restart the payments go to the address of the remote defaults. -/
theorem saved_address_overridden :
    ∃ response content', updateConfig (fun _ => .ok ()) sampleConfig ownAddress = (response, content') ∧
      response.message = "已更新: PAYMENT_ADDRESS_EVM，重启后生效" ∧ response.status = 200 ∧
      startConfig .plain "/root/.config/tpn-worker" (fun _ => none) content'
        (some "PAYMENT_ADDRESS_EVM=0x1c89cb81123903Af1ecbbf3Edd688EfEDE119e12\n") .paymentAddressEvm =
          "0x1c89cb81123903Af1ecbbf3Edd688EfEDE119e12" ∧
      RemoteKey.paymentAddressEvm.requested ownAddress = some "0x52908400098527886E0F7030069857D2E4169EE7" := by
  exact ⟨_, _, rfl, by decide +kernel, by decide +kernel, by decide +kernel, rfl⟩

/-- The remote body cannot be fetched. -/
theorem saved_setting_survives_iff_sample :
    ∃ content', startConfig .plain "/root/.config/tpn-worker" (fun _ => none) content' none .paymentAddressEvm =
      "0x52908400098527886E0F7030069857D2E4169EE7" := by
  have hlast : (Dotenv.plain.mentions .paymentAddressEvm sampleConfig).getLast? =
      some (.own (some "0x1c89cb81123903Af1ecbbf3Edd688EfEDE119e12")) := by decide +kernel
  have hlines : ownAddress.SingleLine := by
    intro field hfield v hv
    simp only [ConfigUpdateRequest.texts, ownAddress, List.mem_cons, List.not_mem_nil, or_false] at hfield
    rcases hfield with rfl | rfl | rfl
    · cases hv
    · cases hv
      decide +kernel
    · cases hv
  refine ⟨_, (saved_setting_survives_iff .plain _ _ (fun _ => .ok ()) sampleConfig _ ownAddress _ none .paymentAddressEvm _
    rfl (by decide +kernel) rfl hlines (by decide +kernel)).mpr (Or.inr ⟨rfl, ?_⟩)⟩
  rintro ⟨-, x, -, hx⟩
  cases hlast.symm.trans hx

end TpnWorker
