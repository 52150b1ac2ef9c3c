import BlockSeal.Proofs.Coordinator.Lineage
import BlockSeal.Proofs.Coordinator.Shutdown
import BlockSeal.Proofs.Engine.Preparation
import BlockSeal.Proofs.Epoch.Atomicity
import BlockSeal.Proofs.Epoch.Genesis
import BlockSeal.Proofs.Epoch.Promotion
import BlockSeal.Proofs.HashRate
import BlockSeal.Proofs.Pow.Division
import BlockSeal.Proofs.Pow.Pages
import BlockSeal.Proofs.Preimages
import BlockSeal.Proofs.SealFraming
import BlockSeal.Proofs.Sealer.Retries
import BlockSeal.Proofs.Validators.Governing
import BlockSeal.Proofs.Validators.Routing
import BlockSeal.Proofs.WireForm
import BlockSeal.Proofs.WorkStrings
