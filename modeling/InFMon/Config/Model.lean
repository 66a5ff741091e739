import InFMon.Frontend.Model

/-! # The configuration

`config/model.rs`: the configuration of the front end, as far as its validation reads it. -/

namespace InFMon.Frontend

/-- Byte width of a field in a key. -/
def Field.width : Field → UInt32
  | .srcIp | .dstIp | .mirrorSrcIp => 16
  | .ipProto | .dscp => 1
  | .srcPort | .dstPort => 2

/-- `FrontendConfig`. -/
structure FrontendConfig where
  pollingIntervalMs : UInt64
  startupTimeout : String
  shutdownGraceMs : UInt64

/-- `serde_yaml::Value`, where only strings are told apart. -/
inductive YamlValue where
  | string (s : String)
  | tagged (tag : String) (value : YamlValue)
  | other

/-- `Value::as_str`: a tag is looked through. -/
def YamlValue.asStr : YamlValue → Option String
  | .string s => some s
  | .tagged _ value => value.asStr
  | .other => none

/-- `ExporterEntry`. -/
structure ExporterEntry where
  kind : String
  name : String
  queueDepth : ℕ
  exportTimeout : String
  onOverflow : String
  extra : String → Option YamlValue

/-- `LogType`. -/
inductive LogType where
  | syslog
  | file
  deriving DecidableEq, Repr

/-- `LoggingConfig`, with the path of the file. -/
structure LoggingConfig where
  destination : LogType
  file : Option String

/-- `Config`. -/
structure Config where
  frontend : Option FrontendConfig
  flowRules : List FlowRule
  exporters : Option (List ExporterEntry)
  logging : Option LoggingConfig

end InFMon.Frontend
