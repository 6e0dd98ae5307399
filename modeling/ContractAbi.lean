import ContractAbi.Bytes
import ContractAbi.Word
import ContractAbi.Text.Hidden
import ContractAbi.Text.Blank
import ContractAbi.Text.Quoted
import ContractAbi.Text.Hex
import ContractAbi.Text.Utf8
import ContractAbi.Text.Numeral
import ContractAbi.Address
import ContractAbi.Int256
import ContractAbi.Int256.SignMagnitude
import ContractAbi.Decimal
import ContractAbi.AbiType
import ContractAbi.AbiType.Text
import ContractAbi.AbiType.Valid
import ContractAbi.AbiType.Parser
import ContractAbi.Value
import ContractAbi.Value.Dump
import ContractAbi.Error
import ContractAbi.Config
import ContractAbi.Value.Build
import ContractAbi.Region
import ContractAbi.Encode
import ContractAbi.Decode
import ContractAbi.Digest.Keccak
import ContractAbi.Digest.Sm3
import ContractAbi.Digest
import ContractAbi.Signature
import ContractAbi.Function
import ContractAbi.Event
import ContractAbi.Interface
import ContractAbi.Toml.Scan
import ContractAbi.Toml.Strings
import ContractAbi.Toml.Number
import ContractAbi.Toml.DateTime
import ContractAbi.Toml.Table
import ContractAbi.Toml.Document
import ContractAbi.Profile
import ContractAbi.Profile.Settings
import ContractAbi.Proofs.Outcomes
import ContractAbi.Proofs.Legality
import ContractAbi.Proofs.Validity
import ContractAbi.Proofs.Compatibility
import ContractAbi.Proofs.Typing
import ContractAbi.Proofs.UniqueReadability
import ContractAbi.Proofs.TypeGrammar
import ContractAbi.Proofs.TypeReading
import ContractAbi.Proofs.TypeParsing
import ContractAbi.Proofs.TypeRecognition
import ContractAbi.Proofs.SignedWord
import ContractAbi.Proofs.SignMagnitude
import ContractAbi.Proofs.SignExtension
import ContractAbi.Proofs.Scaling
import ContractAbi.Proofs.Reading
import ContractAbi.Proofs.Addressing
import ContractAbi.Proofs.Simulation
import ContractAbi.Proofs.TypeSoundness
import ContractAbi.Proofs.ReadBudget
import ContractAbi.Proofs.HeadTail
import ContractAbi.Proofs.Writing
import ContractAbi.Proofs.HeadSums
import ContractAbi.Proofs.HeadSizes
import ContractAbi.Proofs.Relocation
import ContractAbi.Proofs.TypeChecking
import ContractAbi.Proofs.Building
import ContractAbi.Proofs.LeafRange
import ContractAbi.Proofs.FieldNames
import ContractAbi.Proofs.Conformance
import ContractAbi.Proofs.RoundTrip
import ContractAbi.Proofs.Normalization
import ContractAbi.Proofs.Padding
import ContractAbi.Proofs.StaticReading
import ContractAbi.Proofs.Extension
import ContractAbi.Proofs.Calls
import ContractAbi.Proofs.Logs
import ContractAbi.Proofs.Truncation
import ContractAbi.Proofs.Dispatch
import ContractAbi.Proofs.WireIntegers
import ContractAbi.Proofs.Homogeneity
import ContractAbi.Proofs.LogStreams
import ContractAbi.Proofs.InferredElements
import ContractAbi.Proofs.DecimalForm
import ContractAbi.Proofs.IntegerText
import ContractAbi.Proofs.TwosComplement
import ContractAbi.Proofs.DecimalText
