/-!
# RAPL domains and the cpuctl device

The energy counters of an Intel processor are model-specific registers, read through `/dev/cpuctl<N>`.
-/

namespace ObservableBSD.Hwtlm

inductive RAPLDomain where
  | package | pp0 | pp1 | dram | platform
deriving DecidableEq, Repr

def RAPLDomain.energyMSR : RAPLDomain → Int32
  | .package => 0x611
  | .pp0 => 0x639
  | .pp1 => 0x641
  | .dram => 0x619
  | .platform => 0x64D

inductive IntelMicroarch where
  | sandyBridge | sandyBridgeEP | ivyBridge | ivyBridgeEP | haswell | haswellEP | broadwell | broadwellEP
  | skylake | skylakeX | kabylake | coffeelake | cometlake | icelake | icelakeX | tigerlake | alderlake
  | raptorLake | meteorlake | sapphireRapids | emeraldRapids | atom
deriving DecidableEq, Repr

def IntelMicroarch.supportedDomains : IntelMicroarch → List RAPLDomain
  | .sandyBridge | .ivyBridge => [.package, .pp0, .pp1]
  | .sandyBridgeEP | .ivyBridgeEP => [.package, .pp0, .dram]
  | .haswell | .broadwell => [.package, .pp0, .pp1, .dram]
  | .haswellEP | .broadwellEP => [.package, .pp0, .dram]
  | .skylake | .kabylake | .coffeelake | .cometlake | .icelake | .tigerlake | .alderlake | .raptorLake
  | .meteorlake => [.package, .pp0, .pp1, .dram, .platform]
  | .skylakeX | .icelakeX | .sapphireRapids | .emeraldRapids => [.package, .pp0, .dram, .platform]
  | .atom => [.package]

theorem IntelMicroarch.supportedDomains_nodup (arch : IntelMicroarch) : arch.supportedDomains.Nodup := by
  cases arch <;> decide

inductive HWError where
  | cpuctlNotLoaded
  | openFailed (cpu : Int) (errno : Int32)
  | msrReadFailed (cpu : Int) (msr errno : Int32)
deriving DecidableEq, Repr

/-- What `open` and the `CPUCTL_RDMSR` request answer on one device: an errno where they fail. -/
structure CpuctlDevice where
  openErrno : Option Int32 := none
  rdmsr : Int32 → Except Int32 UInt64

structure CpuctlReader where
  cpu : Int
  device : CpuctlDevice

def ENOENT : Int32 := 2

/-- `CpuctlReader.init(cpu:)` -/
def CpuctlReader.open (cpu : Int) (device : CpuctlDevice) : Except HWError CpuctlReader :=
  match device.openErrno with
  | none => .ok { cpu, device }
  | some err => if err = ENOENT then .error .cpuctlNotLoaded else .error (.openFailed cpu err)

def CpuctlReader.readMSR (reader : CpuctlReader) (msr : Int32) : Except HWError UInt64 :=
  match reader.device.rdmsr msr with
  | .ok data => .ok data
  | .error err => .error (.msrReadFailed reader.cpu msr err)

end ObservableBSD.Hwtlm
