import GoCell.Kernel.NetAddresses

namespace GoCell.Webhook

open Foundation Kernel List

def normalizeIP (ip : IP) : Bytes := (to4 ip).getD ip

def isLoopback (ip : Bytes) : Bool :=
  match to4 ip with
  | some v4 => v4.head? = some 127
  | none => ip = replicate 15 0 ++ [1]

structure IPNet where
  ip : Bytes
  mask : Bytes
  length_eq : mask.length = ip.length

def IPNet.contains (n : IPNet) (ip : Bytes) : Bool :=
  let nn := (to4 n.ip).getD n.ip
  let mask := if n.mask.length = nn.length then n.mask else n.mask.drop 12
  let x := (to4 ip).getD ip
  x.length = nn.length && (nn.zip (mask.zip x)).all fun (a, m, b) ↦ a &&& m = b &&& m

/-- `net.ParseCIDR` of an address and the length of its prefix. -/
def cidr (ip : Bytes) (ones : ℕ) : IPNet where
  ip := ip
  mask := (range ip.length).map fun i ↦ UInt8.ofNat (256 - 2 ^ (8 - min 8 (ones - 8 * i)))
  length_eq := by rw [length_map, length_range]

def v6 (front : Bytes) : Bytes := front ++ replicate (16 - front.length) 0

def ssrfBlockedNets : List IPNet :=
  [cidr [0, 0, 0, 0] 8, cidr [10, 0, 0, 0] 8, cidr [100, 64, 0, 0] 10, cidr [127, 0, 0, 0] 8,
    cidr [169, 254, 0, 0] 16, cidr [172, 16, 0, 0] 12, cidr [192, 0, 0, 0] 24,
    cidr [192, 0, 2, 0] 24, cidr [192, 88, 99, 0] 24, cidr [192, 168, 0, 0] 16,
    cidr [198, 18, 0, 0] 15, cidr [198, 51, 100, 0] 24, cidr [203, 0, 113, 0] 24,
    cidr [224, 0, 0, 0] 4, cidr [240, 0, 0, 0] 4, cidr [255, 255, 255, 255] 32,
    cidr (v6 []) 128, cidr (replicate 15 0 ++ [1]) 128, cidr (v6 [0, 0x64, 0xff, 0x9b]) 96,
    cidr (v6 [0, 0x64, 0xff, 0x9b, 0, 1]) 48, cidr (v6 [1, 0]) 64, cidr (v6 [0x20, 1]) 23,
    cidr (v6 [0x20, 1, 0, 2]) 48, cidr (v6 [0x20, 1, 0x0d, 0xb8]) 32,
    cidr (v6 [0x20, 1, 0, 0x10]) 28, cidr (v6 [0x20, 1, 0, 0x20]) 28, cidr (v6 [0x20, 2]) 16,
    cidr (v6 [0xfc]) 7, cidr (v6 [0xfe, 0x80]) 10, cidr (v6 [0xff]) 8]

structure SafePolicy where
  allowLoopback : Bool := false
  blockedNets : List IPNet := ssrfBlockedNets

def SafePolicy.vet (p : SafePolicy) (ip : IP) : Except Err Unit :=
  let norm := normalizeIP ip
  require ((p.allowLoopback && isLoopback norm) || p.blockedNets.all fun n ↦ !n.contains norm)
    ⟨.permissionDenied, .webhookSSRFBlocked,
      "webhook: target address is blocked by SSRF policy", []⟩

structure Dial where
  network : Bytes
  address : Bytes
  deriving DecidableEq

section

variable (p : SafePolicy) (lookupIPAddr : Bytes → Option (List IP))

/-- The dial `DialContext` ends with, or the error it returns without one. -/
def SafePolicy.dialContext (network address : Bytes) : Except Err Dial :=
  match splitHostPort address with
  | none =>
    .error ⟨.permissionDenied, .webhookSSRFBlocked, "webhook: malformed dial address", []⟩
  | some (host, port) =>
    match parseIP host with
    | some ip => do
      p.vet ip
      return ⟨network, joinHostPort (ipString ip) port⟩
    | none =>
      match lookupIPAddr host with
      | none =>
        .error ⟨.unavailable, .webhookDeliveryFailed, "webhook: dial host resolution failed", []⟩
      | some [] =>
        .error ⟨.unavailable, .webhookDeliveryFailed,
          "webhook: dial host resolved to no addresses", []⟩
      | some (vetted :: addrs) => do
        (vetted :: addrs).forM p.vet
        return ⟨network, joinHostPort (ipString vetted) port⟩

/-- The addresses a host stands for: a literal is its own only answer. -/
def answersFor (host : Bytes) : Option (List IP) :=
  match parseIP host with
  | some ip => some [ip]
  | none => lookupIPAddr host

/-- In no blocked network, or a loopback address that the policy allows. -/
def SafePolicy.Passes (ip : IP) : Prop :=
  (p.allowLoopback = true ∧ isLoopback (normalizeIP ip) = true) ∨
    ∀ n ∈ p.blockedNets, n.contains (normalizeIP ip) = false

end

variable {p : SafePolicy}

theorem vet_ok {ip : IP} : p.vet ip = .ok () ↔ p.Passes ip := by
  simp [SafePolicy.vet, SafePolicy.Passes, require_ok]

theorem forM_vet_ok {ips : List IP} : ips.forM p.vet = .ok () ↔ ∀ ip ∈ ips, p.Passes ip := by
  induction ips with
  | nil => simp [List.forM, pure, Except.pure]
  | cons ip ips ih =>
    rw [List.forM, check_ok, vet_ok, ih, forall_mem_cons]

theorem SafePolicy.Passes.congr {ip ip' : IP} (h : normalizeIP ip' = normalizeIP ip) :
    p.Passes ip' ↔ p.Passes ip := by
  rw [SafePolicy.Passes, SafePolicy.Passes, h]

/-- What the dialer is handed is read back as the first of the vetted addresses. -/
theorem dialled_address {address host port : Bytes} (h : splitHostPort address = some (host, port))
    (ip : IP) : ∃ dialled, splitHostPort (joinHostPort (ipString ip) port) =
      some (ipString ip, port) ∧ parseIP (ipString ip) = some dialled ∧
        normalizeIP dialled = normalizeIP ip := by
  obtain ⟨dialled, hparse, hnorm⟩ := parseIP_ipString ip
  exact ⟨dialled, splitHostPort_ipString (splitHostPort_some h), hparse, hnorm⟩

theorem dialContext_ok_iff (p : SafePolicy) (lookupIPAddr : Bytes → Option (List IP))
    (network address : Bytes) (dial : Dial) :
    p.dialContext lookupIPAddr network address = .ok dial ↔
      ∃ host port ip answers dialled, splitHostPort address = some (host, port) ∧
        answersFor lookupIPAddr host = some (ip :: answers) ∧
        (∀ a ∈ ip :: answers, p.Passes a) ∧
        dial = ⟨network, joinHostPort (ipString ip) port⟩ ∧
        splitHostPort dial.address = some (ipString ip, port) ∧
        parseIP (ipString ip) = some dialled ∧ normalizeIP dialled = normalizeIP ip ∧
        p.Passes dialled := by
  unfold SafePolicy.dialContext answersFor
  constructor
  · intro h
    split at h
    · cases h
    · next host port hsplit =>
      split at h
      · next ip hparse =>
        obtain ⟨hvet, hdial⟩ := check_ok.1 h
        cases hdial
        obtain ⟨dialled, haddress, hread, hnorm⟩ := dialled_address hsplit ip
        have hpass := vet_ok.1 hvet
        exact ⟨host, port, ip, [], dialled, hsplit, by rw [hparse], forall_mem_singleton.2 hpass,
          rfl, haddress, hread, hnorm, (SafePolicy.Passes.congr hnorm).2 hpass⟩
      · next hparse =>
        split at h
        · cases h
        · cases h
        · next vetted addrs hlookup =>
          obtain ⟨hvet, hdial⟩ := check_ok.1 h
          cases hdial
          obtain ⟨dialled, haddress, hread, hnorm⟩ := dialled_address hsplit vetted
          have hpass := forM_vet_ok.1 hvet
          exact ⟨host, port, vetted, addrs, dialled, hsplit, by rw [hparse]; exact hlookup, hpass,
            rfl, haddress, hread, hnorm,
            (SafePolicy.Passes.congr hnorm).2 (hpass _ mem_cons_self)⟩
  · rintro ⟨host, port, ip, answers, -, hsplit, hanswers, hpasses, rfl, -⟩
    rw [hsplit]
    dsimp only
    split at hanswers
    · cases hanswers
      exact check_ok.2 ⟨vet_ok.2 (hpasses _ mem_cons_self), rfl⟩
    · rw [hanswers]
      exact check_ok.2 ⟨forM_vet_ok.2 hpasses, rfl⟩

theorem literal_host_is_dialled : ¬∀ (p : SafePolicy) (lookupIPAddr : Bytes → Option (List IP))
    (network address host port : Bytes) (dial : Dial) (answers : List IP),
    p.dialContext lookupIPAddr network address = .ok dial →
      splitHostPort address = some (host, port) → lookupIPAddr host = some answers →
      ∃ ip ∈ answers, dial = ⟨network, joinHostPort (ipString ip) port⟩ := by
  intro h
  obtain ⟨ip, hip, -⟩ := h {} (fun _ ↦ some []) (asciiBytes "tcp") (asciiBytes "9.9.9.9:443")
    (asciiBytes "9.9.9.9") (asciiBytes "443") ⟨asciiBytes "tcp", asciiBytes "9.9.9.9:443"⟩ []
    (by decide +kernel) (by decide +kernel) rfl
  cases hip

end GoCell.Webhook
